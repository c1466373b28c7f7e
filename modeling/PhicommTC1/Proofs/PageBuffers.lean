import Mathlib.Tactic.Linarith
import PhicommTC1.Device
import PhicommTC1.Foundation.Runs

/-! What the pages print and what they allocated for it. Each size is the length of a text without its
terminator, so neither page has room for the terminator of what it prints. -/

namespace PhicommTC1.Proofs.PageBuffers
open CText PhicommTC1
variable {url : CStr} {slot : Plug → CStr}

/-- A printed text and its terminator fit into a buffer of the given size. -/
def Holds (size : Nat) (text : List UInt8) : Prop := text.length + 1 ≤ size

theorem decimal_pos (value : Int) : 0 < (decimal value).length := by
  unfold decimal
  split <;> simp [Nat.length_toDigits_pos]

theorem decimal_le {value : Int} {digits : Nat} (positive : 0 < digits) (low : 0 ≤ value) (high : value < 10 ^ digits) :
    (decimal value).length ≤ digits := by
  have natural : value.natAbs < 10 ^ digits := by
    have same : (value.natAbs : Int) = value := Int.natAbs_of_nonneg low
    rw [← same] at high
    exact_mod_cast high
  rw [decimal, if_neg (Int.not_lt.mpr low), List.length_map]
  exact (Nat.length_toDigits_le_iff (by decide) positive).mpr natural

/-- The digits of a request take the room of the digits of the template. -/
theorem sendBuf_length (found : httpdArgFind url = some slot) : (sendBuf slot).length = switchBufSize := by
  have digit (k : Plug) : (slot k).bytes.length = 1 := by
    rcases httpdArgFind_binary found k with same | same <;> rw [same] <;> decide
  simp only [sendBuf, CStr.length, CStr.append_bytes, List.length_append, digit]
  decide

/-- Every recorded value takes at least the one digit that the template has for it. -/
theorem statusCbk_length (power : UInt32) (config : UConfig) :
    statusBufSize power ≤ (statusCbk power config).length := by
  have digits (k : Plug) : 1 ≤ (decimal (config.plug k).on.toNat).length := decimal_pos _
  have template : statusTemplate.length = 9 + 1 + 9 + 1 + 9 + 1 + 9 + 1 + 9 + 1 + 9 + 1 + 9 + 1 := by decide
  have printed : (statusCbk power config).length =
      9 + (decimal (config.plug 0).on.toNat).length + 9 + (decimal (config.plug 1).on.toNat).length +
      9 + (decimal (config.plug 2).on.toNat).length + 9 + (decimal (config.plug 3).on.toNat).length +
      9 + (decimal (config.plug 4).on.toNat).length + 9 + (decimal (config.plug 5).on.toNat).length +
      9 + (powerTempBuf power).length + 1 := by
    simp only [statusCbk, List.length_append]
    rfl
  rw [printed, statusBufSize, template]
  linarith [digits 0, digits 1, digits 2, digits 3, digits 4, digits 5]

theorem toInt32_small (value : UInt32) (small : 2 * value.toNat < 2 ^ 32) : value.toInt32.toInt = value.toNat :=
  BitVec.toInt_eq_toNat_of_lt small

theorem powerTempBuf_holds (power : UInt32) : Holds powerTempBufSize (powerTempBuf power) := by
  have bound : power.toNat < 2 ^ 32 := power.toNat_lt
  have quotient : (power / 10).toNat = power.toNat / 10 := UInt32.toNat_div _ _
  have remainder : (power % 10).toNat = power.toNat % 10 := UInt32.toNat_mod _ _
  have tenths := toInt32_small (power / 10) (by omega)
  have rest := toInt32_small (power % 10) (by omega)
  have whole : (decimal (power.toNat / 10 : Nat)).length ≤ 9 := decimal_le (by decide) (by omega) (by omega)
  have digit : (decimal (power.toNat % 10 : Nat)).length ≤ 1 := decimal_le (by decide) (by omega) (by omega)
  have point : (CStr.ofString ".").bytes.length = 1 := by decide
  rw [Holds, powerTempBuf, tenths, rest, quotient, remainder, List.length_append, List.length_append, point,
    powerTempBufSize]
  omega

/-- What the pages need: each text and its terminator fit into what was allocated for them. -/
structure BuffersHold (slot : Plug → CStr) (power : UInt32) (config : UConfig) : Prop where
  switch : Holds switchBufSize (sendBuf slot).bytes
  status : Holds (statusBufSize power) (statusCbk power config)
  powerTemp : Holds powerTempBufSize (powerTempBuf power)

theorem switch_overruns (found : httpdArgFind url = some slot) : ¬ Holds switchBufSize (sendBuf slot).bytes := by
  have length : (sendBuf slot).bytes.length = switchBufSize := sendBuf_length found
  rw [Holds, length]
  omega

theorem status_overruns (power : UInt32) (config : UConfig) :
    ¬ Holds (statusBufSize power) (statusCbk power config) := by
  have length := statusCbk_length power config
  rw [Holds]
  omega

/-- Both pages overrun their `send_buf`, whatever is recorded and asked for. Only the power value has room. -/
theorem page_buffers_overrun (found : httpdArgFind url = some slot) (power : UInt32) (config : UConfig) :
    ¬ BuffersHold slot power config ∧ ¬ Holds switchBufSize (sendBuf slot).bytes ∧
      ¬ Holds (statusBufSize power) (statusCbk power config) ∧ Holds powerTempBufSize (powerTempBuf power) := by
  refine ⟨?_, switch_overruns found, status_overruns power config, powerTempBuf_holds power⟩
  intro hold
  exact status_overruns power config hold.status

def allOff : CStr := .ofString "/switch?slot0=0&slot1=0&slot2=0&slot3=0&slot4=0&slot5=0"

theorem page_buffers_overrun_allOff : ∃ slot, httpdArgFind allOff = some slot ∧
    ¬ BuffersHold slot 0 exampleBoot.uConfig := by
  obtain ⟨slot, found⟩ := Option.isSome_iff_exists.mp (by decide +kernel : (httpdArgFind allOff).isSome = true)
  exact ⟨slot, found, (page_buffers_overrun found 0 _).1⟩

theorem page_buffer_short : ¬ ∀ (strMac strIp : CStr) (past : List Event) (state : State) (url : CStr)
    (slot : Plug → CStr) (power : UInt32), Runs.run step (boot strMac strIp) past = .ok state →
    httpdArgFind url = some slot → BuffersHold slot power state.uConfig := by
  intro assumed
  obtain ⟨slot, found⟩ := Option.isSome_iff_exists.mp (by decide +kernel : (httpdArgFind allOff).isSome = true)
  have hold := assumed exampleMac (.ofString "192.168.1.20") [] exampleBoot allOff slot 0 rfl found
  exact switch_overruns found hold.switch

end PhicommTC1.Proofs.PageBuffers

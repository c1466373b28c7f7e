import PhicommTC1.AppMain

/-! The device type in the user area of the flash: a mark, a checksum and a text that `AT+TYPE` sets. -/

namespace PhicommTC1
open CText

/-- `hffile_userbin_read` and `hffile_userbin_write` for the first 21 bytes of a user area. -/
structure UserBin (σ : Type) where
  read : σ → CharArray 21
  write : CharArray 21 → σ → σ
  read_write : ∀ type area, read (write type area) = type

variable {σ : Type}

def HF_SUCCESS : Int32 := 0

/-- The sum of the bytes in an `unsigned char`. -/
def crc (text : CStr) : UInt8 := text.bytes.foldl (· + ·) 0

/-- The result and what `wechat_type`, an array of the caller's, holds after the call. -/
def devParamRead (bin : UserBin σ) (area : σ) (wechatType : CharArray 21) : Exec (Int32 × CharArray 21) :=
  let type := bin.read area
  if type 0 = 0x5A then do
    let p ← readCStr ((List.ofFn type).drop 2)
    if 18 < p.length then return (-1, wechatType)
    if type 1 = crc p then return (HF_SUCCESS, wechatType.overwrite 0 (p.bytes ++ [0]))
    return (-1, wechatType)
  else return (-1, wechatType)

/-- The local record, not initialised before it is filled, and the text copied behind its first two bytes. -/
def typeRecord (uninitialised : CharArray 21) (wechatType : CStr) : CharArray 21 :=
  (uninitialised.overwrite 0 [0x5A, crc wechatType]).overwrite 2 (wechatType.bytes ++ [0])

def devParamWrite (bin : UserBin σ) (wechatType : CStr) (uninitialised : CharArray 21) (area : σ) : Exec σ :=
  if 2 + (wechatType.length + 1) ≤ 21 then .ok (bin.write (typeRecord uninitialised wechatType) area)
  else .error .outOfBounds

/-- The result of a command and what it printed into `rsp`, if it printed. -/
structure AtReply where
  result : Int32
  rsp : Option CStr

/-- The reply and the area, which a query does not write, even where it reads outside its record.
`uninitialised` is what the local array, of the query or of `dev_param_write`, holds before. -/
def hfAtcmdSetType (bin : UserBin σ) (argv : List CStr) (uninitialised : CharArray 21) (area : σ) :
    Exec AtReply × σ :=
  match argv with
  | [] =>
    let reply : Exec AtReply := do
      let (result, type) ← devParamRead bin area uninitialised
      if result = HF_SUCCESS then return ⟨0, some (.ofString "=" ++ type.text)⟩
      return ⟨0, some (.ofString "=" ++ .ofString "")⟩
    (reply, area)
  | [arg] =>
    if arg.length < 18 then
      match devParamWrite bin arg uninitialised area with
      | .ok area => (.ok ⟨0, none⟩, area)
      | .error fault => (.error fault, area)
    else (.ok ⟨-4, none⟩, area)
  | _ => (.ok ⟨-3, none⟩, area)

end PhicommTC1

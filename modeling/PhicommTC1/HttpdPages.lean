import Mathlib.Data.Fintype.Basic
import PhicommTC1.Foundation.CText
import PhicommTC1.CJson

/-! The page table of the HTTP server. What a page's callback works on is up to the page. -/

namespace PhicommTC1
open CText

def HTTPD_MAX_PAGES : Nat := 10

def httpHeader : CStr := .ofString "HTTP/1.1 200 OK\r\nServer: HTTPD\r\nConnection: close\r\n\r\n"

structure HttpdPage (σ : Type) where
  url : CStr
  callback : CStr → σ → σ × CStr

/-- `httpd_pages`. An entry whose `url` is `NULL` is free. -/
abbrev HttpdPages (σ : Type) := Fin HTTPD_MAX_PAGES → Option (HttpdPage σ)

variable {σ : Type}

def HttpdPages.initial : HttpdPages σ := fun _ => none

def httpdAddPage (page : HttpdPage σ) (pages : HttpdPages σ) : Int32 × HttpdPages σ :=
  match (List.finRange HTTPD_MAX_PAGES).find? fun i => (pages i).isNone with
  | none => (-1, pages)
  | some i => (0, Function.update pages i (some page))

/-- The text up to a byte, as writing a zero over the first such byte leaves it. -/
def cutAt (byte : UInt8) (text : CStr) : CStr :=
  ⟨text.bytes.takeWhile (· != byte), fun member => text.noNul ((List.takeWhile_sublist _).subset member)⟩

/-- `buf[50]` after `strncpy` and the zero in its last byte. -/
def firstBytes (text : CStr) : CStr :=
  ⟨text.bytes.take 49, fun member => text.noNul (List.mem_of_mem_take member)⟩

/-- The walk of `p` over the entries that are left. Behind the last of them it reads no page. -/
def findPage (buf : CStr) : List (Option (HttpdPage σ)) → Exec (Option (HttpdPage σ))
  | [] => .error .outOfBounds
  | none :: _ => .ok none
  | some p :: rest => if p.url = buf then .ok (some p) else findPage buf rest

/-- What a call of `httpd_callback` leaves, and the page whose callback it called. -/
structure Served (σ : Type) where
  page : Option (HttpdPage σ)
  result : Int32
  state : σ
  rsp : CStr

/-- The callback writes behind the header. -/
def answer (url rsp : CStr) (state : σ) : Option (HttpdPage σ) → Served σ
  | none => ⟨none, -1, state, rsp⟩
  | some p =>
    let (after, text) := p.callback url state
    ⟨some p, 0, after, httpHeader ++ text⟩

def httpdCallback (pages : HttpdPages σ) (url rsp : CStr) (state : σ) : Exec (Served σ) :=
  (findPage (cutAt 63 (firstBytes url)) (List.ofFn pages)).map (answer url rsp state)

def httpdInit (stylesCbk switchCbk statusCbk : CStr → σ → σ × CStr) : HttpdPages σ :=
  let (_, pages) := httpdAddPage ⟨.ofString "/styles.css", stylesCbk⟩ .initial
  let (_, pages) := httpdAddPage ⟨.ofString "/switch", switchCbk⟩ pages
  let (_, pages) := httpdAddPage ⟨.ofString "/status", statusCbk⟩ pages
  pages

end PhicommTC1

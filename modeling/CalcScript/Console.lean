import CalcScript.Text.Lines

set_option autoImplicit false

namespace CalcScript

structure Console where
  unread : List UInt8
  -- Whether the input ends behind the unread bytes; more may come otherwise.
  ended : Bool
  written : String
  broken : Bool

inductive Line where
  | text (line : String)
  | invalid
  | noMore
  | notYet
deriving DecidableEq, Repr

namespace Console

def ofInput (bytes : List UInt8) : Console := ⟨bytes, true, "", false⟩

-- Writing nothing succeeds everywhere, and so does flushing what was written.
def write? (c : Console) (text : String) : Option Console :=
  if text = "" then some c
  else if c.broken then none
  else some { c with written := c.written ++ text }

-- The next line without its end. A line that is no text is taken all the same, but of a line whose
-- end may still come nothing is.
def readLine (c : Console) : Line × Console :=
  if c.unread = [] then (if c.ended then .noMore else .notYet, c)
  else
    let (line, rest) := Text.takeLine c.unread
    if !c.ended && line.getLast? != some 10 then (.notYet, c)
    else
      let line :=
        match Text.ofUtf8? line with
        | some text => .text (Text.dropLineEnd text)
        | none => .invalid
      (line, { c with unread := rest })

def feed (c : Console) (bytes : List UInt8) : Console :=
  if bytes = [] then { c with ended := true } else { c with unread := c.unread ++ bytes }

end Console

end CalcScript

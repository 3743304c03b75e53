import Kinglet.Postgres.SessionQueue

/-!
# Extended-query frames

The prepared statements and portals of a connection are named with the connection's own prefix before
a frame reaches the shared backend. The names of a frame are C strings at the front of its body; a
frame that does not hold them all is left alone.
-/

namespace Kinglet.Postgres

open Js

/-- How many bytes of the body come before the names, and how many names there are. -/
structure NameLayout where
  skipBytes : ℕ
  nameCount : ℕ

/-- `NAME_BEARING_FRAMES`: Parse, Bind, Describe, Close and Execute. -/
def nameBearingFrames : List (ℕ × NameLayout) :=
  [(0x50, ⟨0, 1⟩), (0x42, ⟨0, 2⟩), (0x44, ⟨1, 1⟩), (0x43, ⟨1, 1⟩), (0x45, ⟨0, 1⟩)]

def isExtendedQueryFrame (tag : ℕ) : Bool := (nameBearingFrames.lookup tag).isSome

def buildConnectionNamespace (connectionId : JsString) : JsString := connectionId ++ js "/"

/-- `view.setInt32(offset, n)`. -/
def setInt32 (bytes : List ℕ) (offset n : ℕ) : List ℕ :=
  bytes.take offset ++ int32Bytes n ++ bytes.drop (offset + 4)

/-- `frame.indexOf(0, offset)`. -/
def indexOfZero (frame : List ℕ) (offset : ℕ) : Option ℕ :=
  ((frame.drop offset).findIdx? (· = 0)).map (offset + ·)

/-- Where the names of the frame start and end, from an offset on. -/
def frameNames (frame : List ℕ) : ℕ → ℕ → Option (List (ℕ × ℕ))
  | 0, _ => some []
  | count + 1, offset => do
      let stop ← indexOfZero frame offset
      let names ← frameNames frame count (stop + 1)
      pure ((offset, stop) :: names)

/-- What is left of the frame from `source` on, with the prefix before every name that is not empty. -/
def insertNamespace (frame namespaceBytes : List ℕ) : ℕ → List (ℕ × ℕ) → List ℕ
  | source, [] => frame.drop source
  | source, (start, stop) :: names =>
      (frame.drop source).take (start - source) ++ (if start < stop then namespaceBytes else []) ++
        insertNamespace frame namespaceBytes start names

def namespaceFrameNames (frame : List ℕ) (connectionNamespace : JsString) : List ℕ :=
  match nameBearingFrames.lookup (frame.headD 0) with
  | none => frame
  | some layout =>
      match frameNames frame layout.nameCount (5 + layout.skipBytes) with
      | none => frame
      | some names =>
          if names.all fun name => name.1 = name.2 then frame
          else
            let rewritten := insertNamespace frame (encode connectionNamespace) 0 names
            setInt32 rewritten 1 (rewritten.length - 1)

/-- A Bind of an unnamed portal and the statement `s`. -/
example : namespaceFrameNames [0x42, 0, 0, 0, 8, 0, 115, 0, 9] (js "c/") =
    [0x42, 0, 0, 0, 10, 0, 99, 47, 115, 0, 9] := by decide

end Kinglet.Postgres

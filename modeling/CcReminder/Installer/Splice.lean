import CcReminder.Installer.Command
import CcReminder.Installer.Jsonc

/-!
# Text splicing

The edits of `installer/mod.rs`: spans of the source with their replacements, which are applied in
the order of their spans. The spans are found by looking at the bytes around a node.
-/

set_option autoImplicit true

namespace CcReminder

structure Edit where
  start : Nat
  stop : Nat
  text : List UInt8
  deriving DecidableEq, Repr

namespace Edit

def insert (pos : Nat) (text : List UInt8) : Edit := ⟨pos, pos, text⟩
def replace (start stop : Nat) (text : List UInt8) : Edit := ⟨start, stop, text⟩
def delete (start stop : Nat) : Edit := ⟨start, stop, []⟩

end Edit

def editOrder (e f : Edit) : Prop := e.start < f.start ∨ e.start = f.start ∧ e.stop ≤ f.stop

instance : DecidableRel editOrder := fun _ _ => inferInstanceAs (Decidable (_ ∨ _))

/-- The source from the cursor on, with the edits applied. -/
def applySorted (source : List UInt8) : Nat → List Edit → Except AppError (List UInt8)
  | cursor, [] => .ok (source.drop cursor)
  | cursor, edit :: edits =>
    if edit.start < cursor then .error (invalidConfig "overlapping splice edits")
    else do
      let rest ← applySorted source edit.stop edits
      pure ((source.drop cursor).take (edit.start - cursor) ++ edit.text ++ rest)

def applyEdits (source : List UInt8) (edits : List Edit) : Except AppError (List UInt8) :=
  applySorted source 0 (edits.insertionSort editOrder)

/-! ## Looking around -/

/-- The next position from `pos` on without white space. -/
def skipForward (source : List UInt8) (pos : Nat) : Nat :=
  pos + ((source.drop pos).takeWhile isAsciiWhitespace).length

/-- The first position of the white space before `pos`. -/
def skipBackward (source : List UInt8) (pos : Nat) : Nat :=
  pos - ((source.take pos).reverse.takeWhile isAsciiWhitespace).length

def comma : UInt8 := 44

/-- The runs of consecutive indices, each with its first and its last. -/
def indexRuns : List Nat → List (Nat × Nat)
  | [] => []
  | i :: is =>
    match indexRuns is with
    | (first, last) :: runs =>
      if first = i + 1 then (i, last) :: runs else (i, i) :: (first, last) :: runs
    | [] => [(i, i)]

/-- The span that deletes what stands from `firstStart` to `lastEnd`: with the comma after it, or
else with the one before it. -/
def deleteSpan (source : List UInt8) (firstStart lastEnd : Nat) : Edit :=
  let stop := skipForward source lastEnd
  if source[stop]? = some comma then .delete firstStart (stop + 1)
  else
    let start := skipBackward source firstStart
    if 0 < start ∧ source[start - 1]? = some comma then .delete (start - 1) lastEnd
    else .delete firstStart lastEnd

def isBlank (b : UInt8) : Bool := b = 32 ∨ b = 9

/-- The white space at the head of the line that contains `pos`, up to `pos`. -/
def lineIndent (source : List UInt8) (pos : Nat) : List UInt8 :=
  let line := ((source.take pos).reverse.takeWhile (· ≠ 10)).reverse
  line.takeWhile isBlank

/-- The first newline of the source, or a plain one. -/
def detectNewline (source : List UInt8) : List UInt8 :=
  match source.findIdx? (· = 10) with
  | some index => if 0 < index ∧ source[index - 1]? = some 13 then [13, 10] else [10]
  | none => [10]

end CcReminder

/-!
# Spans

A span is a half-open range of UTF-8 byte offsets into a source text. Every
node, token and label of a diagnostic carries one.
-/

namespace TemplateLint

structure Span where
  start : Nat
  stop : Nat
deriving DecidableEq

namespace Span

inductive RangeError where
  | stopBeforeStart
deriving DecidableEq

def RangeError.message : RangeError → String
  | .stopBeforeStart => "span end must not precede its start"

def ofLength (start length : Nat) : Span := ⟨start, start + length⟩

/-- A range may be empty but must not run backwards. -/
def ofRange (start stop : Nat) : Except RangeError Span :=
  if start ≤ stop then .ok ⟨start, stop⟩ else .error .stopBeforeStart

/-- The empty span at an offset. -/
def point (offset : Nat) : Span := ⟨offset, offset⟩

def length (s : Span) : Nat := s.stop - s.start

def isEmpty (s : Span) : Bool := s.start == s.stop

def encloses (outer inner : Span) : Bool :=
  decide (outer.start ≤ inner.start) && decide (inner.stop ≤ outer.stop)

/-- Spans are ordered by where they start, then by where they stop. -/
def compare (a b : Span) : Ordering :=
  (Ord.compare a.start b.start).then (Ord.compare a.stop b.stop)

def render (s : Span) : String := toString s.start ++ ".." ++ toString s.stop

theorem ofRange_eq_ok_iff {start stop : Nat} {s : Span} :
    ofRange start stop = .ok s ↔ start ≤ stop ∧ s = ⟨start, stop⟩ := by
  unfold ofRange
  split <;> rename_i h <;> simp [h, eq_comm]

theorem encloses_iff {outer inner : Span} :
    outer.encloses inner ↔ outer.start ≤ inner.start ∧ inner.stop ≤ outer.stop := by
  simp [encloses]

end Span

example : (Span.ofLength 0 12).encloses (Span.ofLength 2 3) = true := by decide

end TemplateLint

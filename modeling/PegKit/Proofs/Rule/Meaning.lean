import PegKit.Rule.Basic
import PegKit.CharClass
import PegKit.Proofs.Text.Utf8

/-! # What rules mean

The meaning of a rule without custom rules is a function of the bytes ahead: how many of them the
rule consumes, or nothing where it does not match. There is no cursor, no error stack and no error
limit in it.

* `Matcher` has one operation for each way to build a rule; `Matcher.greedy` is repetition.
* `Builtin.meaning` spells each builtin rule as its pattern does.
* `Rule.meaning` is the meaning of a rule.
* `Matcher.one_eq_some_iff` and its like say when the basic matchers match.
-/

namespace PegKit

/-- How many of the bytes ahead are consumed, or `none` for no match. -/
abbrev Matcher := List UInt8 → Option Nat

namespace Matcher

/-! ## Matchers -/

/-- Nothing, where no byte is left. -/
def done : Matcher
  | [] => some 0
  | _ :: _ => none

/-- An exact text. -/
def text (t : String) : Matcher := fun input =>
  if (Utf8.bytes t).isPrefixOf input then some (Utf8.bytes t).length else none

/-- A code point that `accepts` accepts. -/
def one (accepts : Char → Bool) : Matcher := fun input =>
  match Utf8.decode input with
  | .scalar c n => if accepts c then some n else none
  | .malformed _ => none

/-- Every matcher in order. -/
def inOrder : List Matcher → Matcher
  | [], _ => some 0
  | f :: fs, input =>
    match f input with
    | some n => (inOrder fs (input.drop n)).map (n + ·)
    | none => none

/-- The first matcher that matches. -/
def firstOf : List Matcher → Matcher
  | [], _ => none
  | f :: fs, input => (f input).or (firstOf fs input)

/-- How often a matcher matches one after the other, at most `max` times, and how many bytes that
consumes. A match that consumes nothing is the last. -/
def greedy (f : Matcher) (max : Option Nat) (input : List UInt8) : Nat × Nat :=
  if max = some 0 then (0, 0)
  else
    match f input with
    | none => (0, 0)
    | some n =>
      -- no match goes past the end, so what stops here is a match that consumes nothing
      if 0 < n ∧ n ≤ input.length then
        let (count, k) := greedy f (max.map (· - 1)) (input.drop n)
        (count + 1, n + k)
      else (1, n)
termination_by input.length
decreasing_by
  rw [List.length_drop]
  omega

/-- As many matches as there are, at least `min` and at most `max`. -/
def repeated (min : Nat) (max : Option Nat) (f : Matcher) : Matcher := fun input =>
  let (count, n) := greedy f max input
  if min ≤ count then some n else none

/-- Nothing, where there is no match. -/
def notAhead (f : Matcher) : Matcher := fun input =>
  if (f input).isNone then some 0 else none

/-- Nothing, where there is a match. -/
def ahead (f : Matcher) : Matcher := fun input =>
  (f input).map fun _ => 0

end Matcher

/-! ## Rules -/

namespace Builtin

open Matcher

/-- `LF / CRLF`. -/
def lineBreak : Matcher := firstOf [text "\n", text "\r\n"]

/-- `SP / TAB`. -/
def blank : Matcher := firstOf [text " ", text "\t"]

/-- `uletter / umark / unumber / upunct / usymbol / SP`. -/
def shown : Matcher :=
  firstOf [one CharClass.uletter.accepts, one CharClass.umark.accepts,
    one CharClass.unumber.accepts, one CharClass.upunct.accepts, one CharClass.usymbol.accepts,
    text " "]

/-- What a builtin rule consumes, as its pattern spells it. -/
def meaning : Builtin → Matcher
  | endOfData => done
  | whiteSpace => firstOf [text " ", text "\t", text "\n", text "\r"]
  | endLine => lineBreak
  | endPara =>
    inOrder [Matcher.repeated 0 none blank,
      firstOf [done, inOrder [lineBreak, firstOf [done, lineBreak]]]]
  | field => Matcher.repeated 1 none (inOrder [notAhead (text " "), shown])
  | printable => shown
  | digit => one fun c => '0' ≤ c && c ≤ '9'
  | any => one fun _ => true

end Builtin

namespace Rule

mutual

/-- What a rule consumes of the bytes ahead. A custom rule means nothing here. -/
def meaning : Rule → Matcher
  | seq _ parts => Matcher.inOrder (meanings parts)
  | choice _ alternatives => Matcher.firstOf (meanings alternatives)
  | repetition _ body min max => Matcher.repeated min max body.meaning
  | notAhead _ body => Matcher.notAhead body.meaning
  | ahead _ body => Matcher.ahead body.meaning
  | literal _ text => Matcher.text text
  | charClass _ _ accepts => Matcher.one accepts
  | builtin b => b.meaning
  | custom _ => fun _ => none

/-- What each of some rules consumes. -/
def meanings : List Rule → List Matcher
  | [] => []
  | r :: rs => r.meaning :: meanings rs

end

theorem meanings_eq_map (rs : List Rule) : meanings rs = rs.map meaning := by
  induction rs with
  | nil => rfl
  | cons r rs ih => rw [meanings, ih, List.map_cons]

end Rule

namespace Matcher

/-! ## When matchers match -/

theorem done_eq_none_iff {input : List UInt8} : done input = none ↔ input ≠ [] := by
  cases input <;> simp [done]

theorem text_eq_length {t : String} {input : List UInt8} (h : Utf8.bytes t <+: input) :
    text t input = some (Utf8.bytes t).length := by
  rw [text, if_pos (List.isPrefixOf_iff_prefix.mpr h)]

theorem text_eq_none_iff {t : String} {input : List UInt8} :
    text t input = none ↔ ¬ Utf8.bytes t <+: input := by
  rw [text, ← List.isPrefixOf_iff_prefix]
  split <;> simp [*]

/-- A class matches where the encoding of a code point that it accepts comes next. -/
theorem one_eq_some_iff {accepts : Char → Bool} {input : List UInt8} {n : Nat} :
    one accepts input = some n ↔
      ∃ c, accepts c = true ∧ String.utf8EncodeChar c <+: input ∧
        n = (String.utf8EncodeChar c).length := by
  constructor
  · intro h
    rw [one] at h
    split at h
    · next c k hd =>
      split at h
      · next hc =>
        cases h
        exact ⟨c, hc, Utf8.decode_eq_scalar_iff.mp hd⟩
      · cases h
    · cases h
  · rintro ⟨c, hc, hp⟩
    rw [one, Utf8.decode_eq_scalar_iff.mpr hp]
    simp only [hc, if_true]

theorem one_eq_none_iff {accepts : Char → Bool} {input : List UInt8} :
    one accepts input = none ↔ ∀ c, String.utf8EncodeChar c <+: input → accepts c = false := by
  constructor
  · intro h c hp
    cases hc : accepts c with
    | false => rfl
    | true =>
      have hs : one accepts input = some (String.utf8EncodeChar c).length :=
        one_eq_some_iff.mpr ⟨c, hc, hp, rfl⟩
      rw [h] at hs
      cases hs
  · intro h
    -- a match would be of a code point that is not accepted
    cases ho : one accepts input with
    | none => rfl
    | some n =>
      rcases one_eq_some_iff.mp ho with ⟨c, hc, hp, _⟩
      rw [h c hp] at hc
      cases hc

/-- Two classes one after the other are their union. -/
theorem one_or_one (p q : Char → Bool) (input : List UInt8) :
    (one p input).or (one q input) = one (fun c => p c || q c) input := by
  simp only [one]
  cases Utf8.decode input with
  | malformed n => rfl
  | scalar c n =>
    cases hp : p c
    · simp [hp]
    · simp [hp]

/-- The text of one code point is the class of that code point. -/
theorem text_eq_one {t : String} {c : Char} (h : Utf8.bytes t = String.utf8EncodeChar c)
    (input : List UInt8) : text t input = one (fun d => d = c) input := by
  cases ho : one (fun d => d = c) input with
  | some n =>
    rcases one_eq_some_iff.mp ho with ⟨d, hd, hp, hn⟩
    have hdc : d = c := of_decide_eq_true hd
    subst hdc
    rw [text_eq_length (h ▸ hp), h, hn]
  | none =>
    rw [text_eq_none_iff, h]
    intro hp
    have hc := one_eq_none_iff.mp ho c hp
    exact absurd rfl (of_decide_eq_false hc)

theorem firstOf_cons_of_some {f : Matcher} {fs : List Matcher} {input : List UInt8} {n : Nat}
    (h : f input = some n) : firstOf (f :: fs) input = some n := by
  rw [firstOf, h, Option.some_or]

theorem firstOf_cons_of_none {f : Matcher} {fs : List Matcher} {input : List UInt8}
    (h : f input = none) : firstOf (f :: fs) input = firstOf fs input := by
  rw [firstOf, h, Option.none_or]

theorem firstOf_eq_none_iff {fs : List Matcher} {input : List UInt8} :
    firstOf fs input = none ↔ ∀ f ∈ fs, f input = none := by
  induction fs with
  | nil => simp [firstOf]
  | cons f fs ih => simp [firstOf, ih]

theorem inOrder_cons_of_some {f : Matcher} {fs : List Matcher} {input : List UInt8} {n : Nat}
    (h : f input = some n) :
    inOrder (f :: fs) input = (inOrder fs (input.drop n)).map (n + ·) := by
  rw [inOrder, h]

theorem inOrder_cons_of_none {f : Matcher} {fs : List Matcher} {input : List UInt8}
    (h : f input = none) : inOrder (f :: fs) input = none := by
  rw [inOrder, h]

theorem firstOf_singleton (f : Matcher) (input : List UInt8) : firstOf [f] input = f input := by
  rw [firstOf, firstOf, Option.or_none]

theorem inOrder_singleton (f : Matcher) (input : List UInt8) : inOrder [f] input = f input := by
  cases hf : f input with
  | none => exact inOrder_cons_of_none hf
  | some n =>
    rw [inOrder_cons_of_some hf]
    rfl

/-! ## Repetition -/

section Repeated

variable {f : Matcher} {max : Option Nat} {input : List UInt8}

theorem greedy_zero : greedy f (some 0) input = (0, 0) := by
  rw [greedy, if_pos rfl]

theorem greedy_of_none (h : f input = none) : greedy f max input = (0, 0) := by
  rw [greedy, h]
  split <;> rfl

theorem greedy_of_empty (hm : max ≠ some 0) (h : f input = some 0) :
    greedy f max input = (1, 0) := by
  rw [greedy, if_neg hm, h]
  rfl

theorem greedy_of_some (hm : max ≠ some 0) {n : Nat} (h : f input = some n) (h0 : 0 < n)
    (hn : n ≤ input.length) :
    greedy f max input =
      ((greedy f (max.map (· - 1)) (input.drop n)).1 + 1,
        n + (greedy f (max.map (· - 1)) (input.drop n)).2) := by
  rw [greedy, if_neg hm, h]
  simp only [h0, hn, and_self, if_true]

theorem repeated_of_greedy {min : Nat} {count n : Nat} (h : greedy f max input = (count, n)) :
    repeated min max f input = if min ≤ count then some n else none := by
  rw [repeated, h]

theorem repeated_zero {min : Nat} :
    repeated min (some 0) f input = if min ≤ 0 then some 0 else none :=
  repeated_of_greedy greedy_zero

theorem repeated_of_none {min : Nat} (h : f input = none) :
    repeated min max f input = if min ≤ 0 then some 0 else none :=
  repeated_of_greedy (greedy_of_none h)

theorem repeated_of_empty {min : Nat} (hm : max ≠ some 0) (h : f input = some 0) :
    repeated min max f input = if min ≤ 1 then some 0 else none :=
  repeated_of_greedy (greedy_of_empty hm h)

/-- A match that consumes something is the first of a repetition. -/
theorem repeated_of_some {min : Nat} (hm : max ≠ some 0) {n : Nat} (h : f input = some n)
    (h0 : 0 < n) (hn : n ≤ input.length) :
    repeated min max f input =
      (repeated (min - 1) (max.map (· - 1)) f (input.drop n)).map (n + ·) := by
  rw [repeated_of_greedy (greedy_of_some hm h h0 hn), repeated]
  simp only [Nat.sub_le_iff_le_add]
  split <;> rfl

end Repeated

end Matcher

end PegKit

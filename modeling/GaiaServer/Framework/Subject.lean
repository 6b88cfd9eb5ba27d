import Mathlib.Data.List.Basic
import Mathlib.Tactic.Common

/-!
# NATS subjects

A subject is a sequence of tokens, separated by dots (`tokens`). In a filter
the token `*` stands for any one token, and a last token `>` for one or more.
`covers` tells whether a filter matches a subject, `overlaps` whether some
subject could match both of two filters, which is how JetStream looks up the
stream of a subscription and keeps two streams from storing the same subject.

A filter matches only subjects that agree with its first token, where that is
literal (`head_eq_of_covers`), and `s.>` matches every `s.t` (`covers_of_name`).
-/

namespace Gaia.Subject

/-- A token, by its characters. -/
abbrev Token := List Char

/-- `*`. -/
def anyOne : Token := ['*']

/-- `>`. -/
def anyTail : Token := ['>']

/-- `subject.split(".")`. -/
def tokens (subject : String) : List Token := subject.toList.splitOn '.'

/-- A filter token and a subject token. -/
def tokenCovers (f t : Token) : Bool := f = anyOne || f = t

/-- The filter matches the subject. -/
def covers : (filter subject : List Token) → Bool
  | [], [] => true
  | f :: fs, t :: ts => (f = anyTail && fs.isEmpty) || (tokenCovers f t && covers fs ts)
  | _, _ => false

/-- The filters have a subject in common. -/
def overlaps : (f g : List Token) → Bool
  | [], [] => true
  | f :: fs, g :: gs =>
    (f = anyTail && fs.isEmpty) || (g = anyTail && gs.isEmpty) ||
      ((f = anyOne || g = anyOne || f = g) && overlaps fs gs)
  | _, _ => false

/-- The tokens of `s.t`. -/
theorem tokens_append_dot (s t : String) : tokens (s ++ "." ++ t) = tokens s ++ tokens t := by
  rw [tokens, String.toList_append, String.toList_append, List.append_assoc]
  exact List.splitOn_append_cons_self ..

theorem tokens_of_dot_notMem {s : String} (h : '.' ∉ s.toList) : tokens s = [s.toList] :=
  List.splitOn_eq_singleton h

/-- A filter whose first token is literal fixes the subject's first token. -/
theorem head_eq_of_covers {f t : Token} {fs ts : List Token} (h : covers (f :: fs) (t :: ts) = true)
    (h₁ : f ≠ anyOne) (h₂ : f ≠ anyTail) : f = t := by
  simp only [covers, tokenCovers, h₁, h₂, decide_false, Bool.false_and, Bool.false_or,
    Bool.and_eq_true, decide_eq_true_eq] at h
  exact h.1

/-- Tokens followed by `>` cover whatever goes on after them. -/
theorem covers_append_tail (f : List Token) {u : List Token} (hu : u ≠ []) :
    covers (f ++ [anyTail]) (f ++ u) = true := by
  induction f with
  | nil =>
    obtain ⟨t, ts, rfl⟩ := List.exists_cons_of_ne_nil hu
    simp [covers]
  | cons t f ih => simp [covers, tokenCovers, ih]

/-- The filter `s.>` covers the subject `s.t`. -/
theorem covers_of_name (s t : String) :
    covers (tokens (s ++ ".>")) (tokens (s ++ "." ++ t)) = true := by
  have hs : s ++ ".>" = s ++ "." ++ ">" := by rw [String.append_assoc]; rfl
  rw [hs, tokens_append_dot, tokens_append_dot]
  apply covers_append_tail
  exact List.splitOn_ne_nil _ _

end Gaia.Subject

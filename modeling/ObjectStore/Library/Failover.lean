import Mathlib

/-!
# Library - Failover

A client of several servers.  It asks the server that it is connected to, round after round,
and counts the rounds without an answer.  At a limit it takes the first server that accepts a
connection, whether or not this one answers.

Main definitions:

- `Failover`, `Failover.next`: the client, and one round.
- `Failover.rounds`: any number of rounds, and which of them were answered.
- `Failover.Recovers`, `Failover.lost`: whether the client will be answered, and how many rounds
  it loses before.

Main results:

- Theorems `Failover.rounds_of_recovers`, `rounds_of_not_recovers`: which rounds are answered when
  the servers do not change.
-/

namespace ObjectStore
namespace Library

/-- A client that talks to one of several servers at a time. -/
structure Failover (α : Type) where
  current : α
  /-- Rounds without an answer, in a row. -/
  failures : Nat
deriving DecidableEq

namespace Failover

variable {α : Type} (limit : Nat) (servers : List α) (accepts answers : α → Bool)

/-- Ask the current server. -/
def ask (self : Failover α) : Failover α × Bool :=
  if answers self.current then ({ self with failures := 0 }, true)
  else ({ self with failures := self.failures + 1 }, false)

/-- One round.  At the limit nobody is asked unless some server accepts the connection. -/
def next (self : Failover α) : Failover α × Bool :=
  if limit ≤ self.failures then
    match servers.find? accepts with
    | some server => ask answers ⟨server, 0⟩
    | none => (self, false)
  else ask answers self

/-- The client after `n` rounds, with their outcomes. -/
def rounds : Nat → Failover α → Failover α × List Bool
  | 0, self => (self, [])
  | n + 1, self =>
      let (after, answered) := next limit servers accepts answers self
      let (last, others) := rounds n after
      (last, answered :: others)

/-- The current server answers and will be asked, or the next one to be taken does. -/
def Recovers (self : Failover α) : Prop :=
  (self.failures < limit ∧ answers self.current = true) ∨
    (servers.find? accepts).any answers = true

instance (self : Failover α) : Decidable (Recovers limit servers accepts answers self) :=
  inferInstanceAs (Decidable (_ ∨ _))

/-- The rounds before the first answer. -/
def lost (self : Failover α) : Nat :=
  if self.failures < limit ∧ answers self.current = true then 0 else limit - self.failures

variable {limit servers accepts answers} {self : Failover α}

theorem ask_of_answers (h : answers self.current = true) :
    ask answers self = ({ self with failures := 0 }, true) := by
  simp [ask, h]

theorem ask_of_not_answers (h : answers self.current = false) :
    ask answers self = ({ self with failures := self.failures + 1 }, false) := by
  simp [ask, h]

theorem next_of_lt (h : self.failures < limit) :
    next limit servers accepts answers self = ask answers self := by
  have hnot : ¬ limit ≤ self.failures := by omega
  simp [next, hnot]

theorem next_of_find {server : α} (h : limit ≤ self.failures)
    (hfind : servers.find? accepts = some server) :
    next limit servers accepts answers self = ask answers ⟨server, 0⟩ := by
  simp only [next, h, hfind, if_true]

theorem next_of_find_none (h : limit ≤ self.failures) (hfind : servers.find? accepts = none) :
    next limit servers accepts answers self = (self, false) := by
  simp only [next, h, hfind, if_true]

theorem lost_le (limit : Nat) (answers : α → Bool) (self : Failover α) :
    lost limit answers self ≤ limit := by
  unfold lost
  split <;> omega

/-- A client that recovers loses the rounds up to the limit, and none after them. -/
theorem rounds_of_recovers (h : Recovers limit servers accepts answers self) (n : Nat) :
    (rounds limit servers accepts answers n self).2 =
      List.replicate (min n (lost limit answers self)) false ++
        List.replicate (n - lost limit answers self) true := by
  induction n generalizing self with
  | zero => simp [rounds]
  | succ n ih =>
      by_cases hlt : self.failures < limit
      · cases hanswers : answers self.current with
        | true =>
            have hlater : Recovers limit servers accepts answers { self with failures := 0 } :=
              .inl ⟨by simp only; omega, hanswers⟩
            have hpos : 0 < limit := by omega
            simp only [rounds, next_of_lt hlt, ask_of_answers hanswers, ih hlater]
            simp [lost, hlt, hanswers, hpos, List.replicate_succ]
        | false =>
            have hlater : Recovers limit servers accepts answers
                { self with failures := self.failures + 1 } := by
              rcases h with ⟨_, hcurrent⟩ | hfound
              · rw [hanswers] at hcurrent
                cases hcurrent
              · exact .inr hfound
            have hlost : limit - self.failures = limit - (self.failures + 1) + 1 := by omega
            simp only [rounds, next_of_lt hlt, ask_of_not_answers hanswers, ih hlater]
            simp [lost, hanswers, hlost, Nat.add_min_add_right, List.replicate_succ]
      · have hfound : (servers.find? accepts).any answers = true := by
          rcases h with ⟨hlt', _⟩ | hfound
          · exact absurd hlt' hlt
          · exact hfound
        rcases (Option.any_eq_true _ _).mp hfound with ⟨server, hfind, hanswers⟩
        have hlater : Recovers limit servers accepts answers ⟨server, 0⟩ := .inr hfound
        have hself : lost limit answers self = 0 := by
          simp only [lost, hlt, false_and, if_false]
          omega
        have hnext : lost limit answers ⟨server, 0⟩ = 0 := by
          simp only [lost, hanswers, and_true]
          split <;> omega
        have hround : next limit servers accepts answers self = (⟨server, 0⟩, true) :=
          (next_of_find (by omega) hfind).trans (ask_of_answers hanswers)
        simp [rounds, hround, ih hlater, hself, hnext, List.replicate_succ]

/-- A client that does not recover is never answered. -/
theorem rounds_of_not_recovers (h : ¬ Recovers limit servers accepts answers self) (n : Nat) :
    (rounds limit servers accepts answers n self).2 = List.replicate n false := by
  induction n generalizing self with
  | zero => simp [rounds]
  | succ n ih =>
      rw [Recovers, not_or, not_and, Bool.not_eq_true, Bool.not_eq_true] at h
      by_cases hlt : self.failures < limit
      · have hanswers := h.1 hlt
        have hlater : ¬ Recovers limit servers accepts answers
            { self with failures := self.failures + 1 } := by
          simp [Recovers, hanswers, h.2]
        simp only [rounds, next_of_lt hlt, ask_of_not_answers hanswers, ih hlater]
        simp [List.replicate_succ]
      · cases hfind : servers.find? accepts with
        | none =>
            have hlater : ¬ Recovers limit servers accepts answers self := by
              simp [Recovers, hlt, hfind]
            have hround : next limit servers accepts answers self = (self, false) :=
              next_of_find_none (by omega) hfind
            simp [rounds, hround, ih hlater, List.replicate_succ]
        | some server =>
            have hanswers : answers server = false := by
              have hany := h.2
              rwa [hfind, Option.any_some] at hany
            have hlater : ¬ Recovers limit servers accepts answers ⟨server, 0 + 1⟩ := by
              simp [Recovers, hanswers, hfind]
            have hround : next limit servers accepts answers self = (⟨server, 0 + 1⟩, false) :=
              (next_of_find (by omega) hfind).trans (ask_of_not_answers hanswers)
            simp [rounds, hround, ih hlater, List.replicate_succ]

end Failover

end Library
end ObjectStore

import Mathlib.Data.List.Basic
import Mathlib.Data.List.Nodup

/-!
# Linearizability

Clients make calls on a shared object and see invocations and responses.
A history of these is linearizable if the calls can be put in one order
in which a sequential object returns what the clients have been told,
and which puts a call that had its response before another one was made
before it (`Linearizes`).

A call is named by a key. Clients may invoke a call again under its key,
and may be told its result more than once; a call is made when it is
invoked first, and everything it is told has to be its result. Calls
that have no response yet may be in the order or not.

A replicated log gives such an order if each response names an entry
that returns it, and what the log has up to there had been invoked
(`linearizes_of_logged`).
-/

namespace Linearizability

variable {σ κ ι ρ : Type}

/-- Where an object begins, and what a call does to it and returns. -/
structure SeqObject (σ ι ρ : Type) where
  init : σ
  apply : σ → ι → σ × ρ

namespace SeqObject

def after (O : SeqObject σ ι ρ) (inputs : List ι) : σ :=
  inputs.foldl (fun s x => (O.apply s x).1) O.init

/-- What a call returns if the calls before it have been `inputs`. -/
def returns (O : SeqObject σ ι ρ) (inputs : List ι) (x : ι) : ρ := (O.apply (O.after inputs) x).2

theorem after_concat (O : SeqObject σ ι ρ) (inputs : List ι) (x : ι) :
    O.after (inputs ++ [x]) = (O.apply (O.after inputs) x).1 := by
  rw [after, List.foldl_append]
  rfl

end SeqObject

inductive Call (κ ι ρ : Type) where
  | invoke (key : κ) (input : ι)
  | respond (key : κ) (result : ρ)
deriving DecidableEq

def Invoked (h : List (Call κ ι ρ)) (key : κ) : Prop := ∃ x, Call.invoke key x ∈ h

def Responded (h : List (Call κ ι ρ)) (key : κ) : Prop := ∃ y, Call.respond key y ∈ h

/-- The first call has had a response when the second is made. -/
def Precedes (h : List (Call κ ι ρ)) (key key' : κ) : Prop :=
  ∃ h₁ h₂, h = h₁ ++ h₂ ∧ Responded h₁ key ∧ ¬Invoked h₁ key'

/-- The history is that of `O` making the calls `l` one after the other. -/
structure Linearizes (O : SeqObject σ ι ρ) (h : List (Call κ ι ρ)) (l : List (κ × ι)) : Prop where
  nodup : (l.map (·.1)).Nodup
  invoked : ∀ p ∈ l, Call.invoke p.1 p.2 ∈ h
  returns : ∀ key y, Call.respond key y ∈ h →
    ∃ l₁ x l₂, l = l₁ ++ (key, x) :: l₂ ∧ y = O.returns (l₁.map (·.2)) x
  realTime : ∀ key key', Precedes h key key' → key' ∈ l.map (·.1) →
    ∃ l₁ l₂, l = l₁ ++ l₂ ∧ key ∈ l₁.map (·.1) ∧ key' ∈ l₂.map (·.1)

def Linearizable (O : SeqObject σ ι ρ) (h : List (Call κ ι ρ)) : Prop := ∃ l, Linearizes O h l

/-- At every moment, each response so far is what an entry of the log returns,
and the log up to there has been invoked. -/
def Logged (O : SeqObject σ ι ρ) (h : List (Call κ ι ρ)) (l : List (κ × ι)) : Prop :=
  ∀ h₁ key y, h₁ <+: h → Call.respond key y ∈ h₁ →
    ∃ l₁ x l₂, l = l₁ ++ (key, x) :: l₂ ∧ y = O.returns (l₁.map (·.2)) x
      ∧ ∀ p ∈ l₁ ++ [(key, x)], Invoked h₁ p.1

theorem linearizes_of_logged {O : SeqObject σ ι ρ} {h : List (Call κ ι ρ)} {l : List (κ × ι)}
    (hnodup : (l.map (·.1)).Nodup) (hinvoked : ∀ p ∈ l, Call.invoke p.1 p.2 ∈ h)
    (hlogged : Logged O h l) : Linearizes O h l where
  nodup := hnodup
  invoked := hinvoked
  returns key y hmem := by
    obtain ⟨l₁, x, l₂, hl, hy, -⟩ := hlogged h key y List.prefix_rfl hmem
    exact ⟨l₁, x, l₂, hl, hy⟩
  realTime key key' hprecedes hkey' := by
    obtain ⟨h₁, h₂, rfl, ⟨y, hmem⟩, hnot⟩ := hprecedes
    obtain ⟨l₁, x, l₂, rfl, -, hbefore⟩ := hlogged h₁ key y (List.prefix_append _ _) hmem
    refine ⟨l₁ ++ [(key, x)], l₂, by simp, by simp, ?_⟩
    -- what is logged up to the response has been invoked, the other call has not
    rw [List.append_cons, List.map_append, List.mem_append] at hkey'
    rcases hkey' with hkey' | hkey'
    · obtain ⟨p, hp, rfl⟩ := List.mem_map.mp hkey'
      exact absurd (hbefore p hp) hnot
    · exact hkey'

end Linearizability

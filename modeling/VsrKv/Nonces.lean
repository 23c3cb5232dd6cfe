import VsrKv.Connections
import VsrKv.FreshRecovery
import VsrKv.Recovery

/-!
# Nonces that are new

The results about recovery ask that a nonce be used once, and say so of
the run. `generate_nonce` puts the replica's id above a counter of 32
bits, so its nonces are distinct for as long as the counter does not
fall back, be it by wrapping or by a restart, and whatever the clock
says (`nonces_nodup`). Agreement then rests on the counter alone
(`agreement_of_counters`).
-/

namespace VsrKv

open Replica TransitionSystem
open Event (process receive request)

/-! ## The numbers in a nonce -/

theorem toNat_generateNonce_low {now : UInt64} {i : Nat} (hi : i < 2 ^ 32) (counter : UInt32) :
    (generateNonce now i counter).low.toNat = 2 ^ 32 * i + counter.toNat := by
  have hcounter := counter.toNat_lt
  have hshift : (UInt64.ofNat i <<< 32).toNat = 2 ^ 32 * i := by
    rw [UInt64.toNat_shiftLeft, UInt64.toNat_ofNat']
    simp [Nat.shiftLeft_eq]
    omega
  rw [generateNonce, UInt64.toNat_or, hshift, UInt32.toNat_toUInt64,
    ← Nat.two_pow_add_eq_or_of_lt hcounter]

theorem generateNonce_injective {now now' : UInt64} {i j : Nat} {counter counter' : UInt32}
    (hi : i < 2 ^ 32) (hj : j < 2 ^ 32)
    (h : generateNonce now i counter = generateNonce now' j counter') :
    i = j ∧ counter = counter' := by
  have hlow := congrArg (fun x : UInt128 => x.low.toNat) h
  simp only [toNat_generateNonce_low hi, toNat_generateNonce_low hj] at hlow
  have h₁ := counter.toNat_lt
  have h₂ := counter'.toNat_lt
  exact ⟨by omega, UInt32.toNat_inj.mp (by omega)⟩

namespace Cluster

/-! ## Counters that do not fall back -/

variable {c c' : Cluster} {ev : Event}

def counter (c : Cluster) (i : Nat) : UInt32 := (c.nodes i).replica.nonceCounter

def CountersHold (c c' : Cluster) : Prop := ∀ i < c.size, c.counter i ≤ c'.counter i

instance (c c' : Cluster) : Decidable (c.CountersHold c') :=
  inferInstanceAs (Decidable (∀ i < c.size, _))

/-- What a step announces: nothing, or a nonce made with the counter of the replica
that enters recovery, which then counts on. -/
inductive Announces (c c' : Cluster) : Prop where
  | nothing (h : ∃ effs : List (Nat × Effect), c'.trace = c.trace ++ effs
      ∧ ∀ x ∈ effs, x.2.nonce? = none)
  | nonce (i : Nat) (now : UInt64) (hlt : i < c.size) (eff : Effect)
      (htrace : c'.trace = c.trace ++ [(i, eff)])
      (heff : eff.nonce? = some (generateNonce now i (c.counter i)))
      (hcounter : c'.counter i = c.counter i + 1)

/-- A step that only changes nodes has put nothing on record. -/
theorem Announces.of_trace (h : c'.trace = c.trace) : Announces c c' :=
  .nothing ⟨[], by rw [h, List.append_nil], by simp⟩

theorem Announces.of_put {i : Nat} {n : Node}
    (h : ∀ eff ∈ n.replica.out, eff.nonce? = none) : Announces c (c.put i n) := by
  refine .nothing ⟨n.replica.out.map (i, ·), rfl, fun x hx => ?_⟩
  obtain ⟨eff, heff, rfl⟩ := List.mem_map.mp hx
  exact h eff heff

theorem Announces.of_serving {i : Nat} {n : Node} (hout : (c.nodes i).replica.out = [])
    (h : Serving (c.nodes i).replica n.replica) : Announces c (c.put i n) := by
  refine .of_put fun eff heff => ?_
  rcases h.out eff heff with heff | hrouted
  · rw [hout] at heff
    cases heff
  · exact hrouted.nonce

theorem step_announces (hstatic : c.Static) (hstep : c.step ev = some c') :
    Announces c c' := by
  cases ev with
  | client i fd msg =>
      simp only [step, Option.ite_none_right_eq_some, Option.some.injEq] at hstep
      obtain ⟨-, rfl⟩ := hstep
      exact .of_trace rfl
  | deliver k =>
      simp only [step, Option.bind_eq_bind, Option.bind_eq_some_iff,
        Option.ite_none_right_eq_some, Option.some.injEq] at hstep
      obtain ⟨p, -, -, rfl⟩ := hstep
      exact .of_trace rfl
  | drop k | duplicate k =>
      simp only [step, Option.bind_eq_bind, Option.bind_eq_some_iff, Option.some.injEq] at hstep
      obtain ⟨p, -, rfl⟩ := hstep
      exact .of_trace rfl
  | start i =>
      simp only [step, Option.ite_none_right_eq_some, Option.some.injEq] at hstep
      obtain ⟨-, rfl⟩ := hstep
      exact .of_trace rfl
  | tick i env =>
      simp only [step, Option.ite_none_right_eq_some, Option.some.injEq] at hstep
      obtain ⟨⟨hlt, -⟩, rfl⟩ := hstep
      cases tick_turned env (c.nodes i) with
      | serving hserving => exact .of_serving (hstatic.out i) hserving
      | answering im rest hq hcmd hanswering =>
          refine .of_put fun eff heff => ?_
          rcases hanswering.out eff heff with heff | ⟨hnone, -⟩
          · rw [hstatic.out i] at heff
            cases heff
          · exact hnone
      | recovering env' hst heq =>
          rw [initiateRecovery, if_neg (by simp [hst])] at heq
          have hid : (c.nodes i).replica.state.id = i := hstatic.id i
          rw [hid] at heq
          refine .nonce i env'.now hlt (.broadcast (recoveryMessage { (c.nodes i).replica.state with
            status := .recovery
            recoveryNonce := generateNonce env'.now i (c.nodes i).replica.nonceCounter
            recoveryResponses := [] })) ?_ ?_ ?_
          · simp [put, heq, broadcastToPeers, emit, hstatic.out i, hid]
          · simp [Effect.nonce?, Effect.message?, VsrMessage.nonce?, recoveryMessage,
              RecoveryRequestPayload.deserialize_serialize, counter]
          · simp [counter, put, heq, broadcastToPeers, emit]
  | heartbeat i =>
      simp only [step, Option.ite_none_right_eq_some, Option.some.injEq] at hstep
      obtain ⟨-, rfl⟩ := hstep
      exact .of_serving (hstatic.out i) (sendCommitMessageIfNeeded_serving _)
  | timeout i =>
      simp only [step, Option.ite_none_right_eq_some, Option.some.injEq] at hstep
      obtain ⟨-, rfl⟩ := hstep
      exact .of_serving (hstatic.out i) (checkPrimaryLiveness_serving _)
  | restart i =>
      simp only [step, Option.ite_none_right_eq_some, Option.some.injEq] at hstep
      obtain ⟨-, rfl⟩ := hstep
      exact .of_trace rfl

/-- Every nonce announced was made with a count that its replica has passed, and no
two are the same. -/
structure Numbered (size : Nat) (c : Cluster) : Prop where
  passed : ∀ x ∈ c.nonces, ∃ i < size, ∃ now k, k < c.counter i ∧ x = generateNonce now i k
  nodup : c.nonces.Nodup

theorem Numbered.step {n : Nat} (hn : n ≤ 2 ^ 32) (h : Numbered n c) (hsize : c.size = n)
    (hannounces : Announces c c') (hhold : c.CountersHold c') : Numbered n c' := by
  have hpassed : ∀ x ∈ c.nonces, ∃ i < n, ∃ now k,
      k < c'.counter i ∧ x = generateNonce now i k := by
    intro x hx
    obtain ⟨i, hi, now, k, hk, rfl⟩ := h.passed x hx
    exact ⟨i, hi, now, k, UInt32.lt_of_lt_of_le hk (hhold i (hsize ▸ hi)), rfl⟩
  cases hannounces with
  | nothing heffs =>
      obtain ⟨effs, htrace, hnone⟩ := heffs
      have hnonces : c'.nonces = c.nonces := by
        rw [nonces, htrace, List.filterMap_append,
          List.filterMap_eq_nil_iff.mpr hnone, List.append_nil]
        rfl
      exact ⟨hnonces ▸ hpassed, hnonces ▸ h.nodup⟩
  | nonce i now hlt eff htrace heff hcounter =>
      have hnonces : c'.nonces = c.nonces ++ [generateNonce now i (c.counter i)] := by
        simp [nonces, htrace, List.filterMap_append, heff]
      -- the counter has not wrapped, so the count just used is below it
      have hlt' : c.counter i < c'.counter i := by
        have hle := hhold i hlt
        rw [hcounter, UInt32.le_iff_toNat_le, UInt32.toNat_add] at hle
        rw [hcounter, UInt32.lt_iff_toNat_lt, UInt32.toNat_add]
        have hbound := (c.counter i).toNat_lt
        simp only [UInt32.toNat_one] at hle ⊢
        omega
      refine ⟨fun x hx => ?_, ?_⟩
      · rw [hnonces] at hx
        rcases List.mem_append.mp hx with hx | hx
        · exact hpassed x hx
        · exact ⟨i, hsize ▸ hlt, now, _, hlt', List.mem_singleton.mp hx⟩
      · rw [hnonces, List.nodup_append]
        refine ⟨h.nodup, List.nodup_singleton _, fun x hx y hy hxy => ?_⟩
        obtain ⟨j, hj, now', k, hk, rfl⟩ := h.passed x hx
        rw [List.mem_singleton.mp hy] at hxy
        obtain ⟨rfl, rfl⟩ := generateNonce_injective (by omega) (by omega) hxy
        exact UInt32.lt_irrefl _ hk

/-- A replica enters recovery by announcing its nonce, so nonces that are all
different are fresh. -/
theorem Moves.freshNonces (hmoves : c.Moves ev c') (hnodup : c'.nonces.Nodup) :
    c.FreshNonces c' := by
  intro j hj hst hst'
  cases hmoves with
  | quiet _ hstate | duplicate _ _ _ hstate => exact absurd (hstate j ▸ hst') hst
  | act i env hev im rest s' effs hqueue hstale hacts hlocal =>
      by_cases hji : j = i
      · subst hji
        rw [hlocal.state_self] at hst'
        exact absurd (hacts.recovering hstale hst').1 hst
      · exact absurd (hlocal.state_ne j hji ▸ hst') hst
  | enterView i s' hst₀ hs' hlocal =>
      by_cases hji : j = i
      · subst hji
        rw [hlocal.state_self, hs'] at hst'
        cases hst'
      · exact absurd (hlocal.state_ne j hji ▸ hst') hst
  | enterRecovery i stuck rest nonce s' hst₀ hqueue hcan haction hs' hlocal =>
      by_cases hji : j = i
      · subst hji
        have hnonces : c'.nonces = c.nonces ++ [nonce] := by
          simp [nonces, hlocal.trace, hs', Effect.nonce?, Effect.message?, VsrMessage.nonce?,
            recoveryMessage, RecoveryRequestPayload.deserialize_serialize]
        rw [hlocal.state_self, hs']
        rw [hnonces, List.nodup_append] at hnodup
        exact fun hmem => hnodup.2.2 _ hmem _ (List.mem_singleton_self _) rfl
      · exact absurd (hlocal.state_ne j hji ▸ hst') hst
  | heartbeat i hst₀ hprimary hlocal =>
      by_cases hji : j = i
      · subst hji
        exact absurd (hlocal.state_self ▸ hst') hst
      · exact absurd (hlocal.state_ne j hji ▸ hst') hst
  | restart i hev hlt hsize hself hne =>
      by_cases hji : j = i
      · subst hji
        rw [hself] at hst'
        cases hst'
      · exact absurd (hne j hji ▸ hst') hst

theorem numbered_run {n : Nat} (hn : n ≤ 2 ^ 32)
    (run : Run (fun c _ c' => c.CountersHold c') (init n) c) : Numbered n c := by
  refine run.invariant ⟨by simp [nonces, init], by simp [nonces, init]⟩ ?_
  intro u ev v run hstep hhold h
  exact h.step hn (size_run run) (step_announces (static_run run) hstep) hhold

/-! ## Runs whose counters hold -/

/-- No nonce is announced twice in a run whose counters do not fall back. -/
theorem nonces_nodup {n : Nat} (hn : n ≤ 2 ^ 32)
    (run : Run (fun c _ c' => c.CountersHold c') (init n) c) : c.nonces.Nodup :=
  (numbered_run hn run).nodup

/-- Replica 2 misses a `Prepare` twice, and recovers both times. -/
def recoversTwice : List Event :=
  request 0 7 (setRequest 1 1 [97, 32, 98]) ++ receive 0 1 ++ receive 1 0
    ++ request 0 8 (setRequest 2 1 [97, 32, 98]) ++ [.deliver 2] ++ process 2 1
    ++ receive 2 0 ++ receive 2 1 ++ receive 2 2 ++ receive 2 2
    ++ request 0 9 (setRequest 3 1 [97, 32, 98]) ++ request 0 8 (setRequest 2 2 [97, 32, 98])
    ++ [.deliver 5] ++ process 2 1

theorem nonces_nodup_of_two :
    ∃ c, Run (fun c _ c' => c.CountersHold c') (init 3) c ∧ 2 ≤ c.nonces.length
      ∧ c.nonces.Nodup := by
  obtain ⟨c, run, h⟩ := exists_of_replay step (fun c _ c' => c.CountersHold c') (init 3)
    recoversTwice (P := fun c => 2 ≤ c.nonces.length) (by decide +kernel)
  exact ⟨c, run, h, nonces_nodup (by norm_num) run⟩

end Cluster

/-! ## Agreement -/

/-- A step in which no message is delivered twice, no counter falls back, a replica
restarts only where it loses nothing, and a recovery that completes is covered. -/
structure Cluster.CountedSteps (c : Cluster) (ev : Event) (c' : Cluster) : Prop where
  once : ev.isDuplicate = false
  restart : ∀ i ∈ ev.restarted?, (c.state i).Pristine
  counters : c.CountersHold c'
  range : c'.InRange
  covered : c.size = 3 ∨ c.CoversLogs ev

instance (c : Cluster) (ev : Event) (c' : Cluster) : Decidable (c.CountedSteps ev c') :=
  decidable_of_iff
    (ev.isDuplicate = false ∧ (∀ i ∈ ev.restarted?, (c.state i).Pristine) ∧ c.CountersHold c'
      ∧ c'.InRange ∧ (c.size = 3 ∨ c.CoversLogs ev))
    ⟨fun ⟨h₁, h₂, h₃, h₄, h₅⟩ => ⟨h₁, h₂, h₃, h₄, h₅⟩,
      fun ⟨h₁, h₂, h₃, h₄, h₅⟩ => ⟨h₁, h₂, h₃, h₄, h₅⟩⟩

/-- Counters that hold make the nonces fresh, so these runs are among the ones
agreement is known of. -/
theorem Cluster.harmless_of_counted {n : Nat} (hn : n ≤ 2 ^ 32) {c : Cluster}
    (run : Cluster.Run Cluster.CountedSteps (Cluster.init n) c) :
    Cluster.Run Cluster.HarmlessRestarts (Cluster.init n) c := by
  refine run.mono fun {u ev v} hrun hstep hok =>
    ⟨⟨hok.once, hok.restart, ?_, hok.range⟩, hok.covered⟩
  have hstatic := Cluster.static_run hrun
  have hnumbered := Cluster.numbered_run hn (hrun.mono fun _ _ h => h.counters)
  have hnumbered' := hnumbered.step hn (Cluster.size_run hrun)
    (Cluster.step_announces hstatic hstep) hok.counters
  exact (Cluster.step_moves hstatic hstep).freshNonces hnumbered'.nodup

/-- Agreement, with nothing asked of the nonces themselves. -/
theorem agreement_of_counters (f : Nat) (hsmall : 2 * f + 1 ≤ 256) {c : Cluster}
    (run : Cluster.Run Cluster.CountedSteps (Cluster.init (2 * f + 1)) c) :
    c.ExecutionsAgree := by
  obtain ⟨a, h, -⟩ := (safe_init f).run hsmall
    (fun hmoves hsize hok => ⟨hok.1, hmoves.three_or_keepsLogs hsize hok.1 hok.2⟩)
    (Cluster.harmless_of_counted (by omega) run)
  exact h.executionsAgree

theorem agreement_of_counters_recovered :
    ∃ c, Cluster.Run Cluster.CountedSteps (Cluster.init (2 * 1 + 1)) c
      ∧ (c.nonces ≠ [] ∧ ∃ x ∈ c.executions, ∃ y ∈ c.executions, x.1 = 0 ∧ y.1 = 2 ∧ x.2 = y.2)
      ∧ c.ExecutionsAgree := by
  obtain ⟨c, run, h⟩ := exists_of_replay Cluster.step Cluster.CountedSteps
    (Cluster.init (2 * 1 + 1)) Cluster.recoversTwice
    (P := fun c => c.nonces ≠ []
      ∧ ∃ x ∈ c.executions, ∃ y ∈ c.executions, x.1 = 0 ∧ y.1 = 2 ∧ x.2 = y.2)
    (by decide +kernel)
  exact ⟨c, run, h, agreement_of_counters 1 (by norm_num) run⟩

end VsrKv

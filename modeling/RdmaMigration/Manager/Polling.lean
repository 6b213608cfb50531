import RdmaMigration.Lib.Run
import RdmaMigration.Network.Message

/-! # Which message the poller takes next

`HasMessage` goes through the servers from `message_check` on, skips its own id and takes
the first server whose queue is not empty. The next call goes on behind that server; after
the last server, and after a scan that found nothing, it starts over at 0. What the queues
hold may change between any two calls.
-/

namespace RdmaMigration.Manager

open Lib Network

/-- `connections` of the coordinator, and what hangs off them, at the time of a call. -/
abbrev Connections := Int → Option Connection

def hasMessageFrom (connections : Connections) (source : Int) : Bool :=
  match connections source with
  | none => false
  | some conn => !conn.recvQueue.isEmpty

section HasMessage

variable (numServers serverId : Int) (connections : Connections)

def scanServers : Nat → Int → Option Int
  | 0, _ => none
  | rounds + 1, i =>
      if i = serverId then scanServers rounds (i + 1)
      else if hasMessageFrom connections i then some i
      else scanServers rounds (i + 1)

/-- `HasMessage()`: the server that it returns and the new `message_check`. -/
def hasMessage (messageCheck : Int) : Int × Int :=
  match scanServers serverId connections (numServers - messageCheck).toNat messageCheck with
  | some i => (i, if i + 1 < numServers then i + 1 else 0)
  | none => (-1, 0)

def InCluster (i : Int) : Prop := 0 ≤ i ∧ i < numServers

def Waiting (i : Int) : Prop := i ≠ serverId ∧ hasMessageFrom connections i = true

end HasMessage

def hasMessageStep (numServers serverId messageCheck : Int) (connections : Connections) :
    Option Int :=
  some (hasMessage numServers serverId connections messageCheck).2

section Scan

variable {numServers serverId messageCheck : Int} {connections : Connections}

theorem scanServers_of_waiting {rounds : Nat} {i : Int} (h : Waiting serverId connections i) :
    scanServers serverId connections (rounds + 1) i = some i := by
  rw [scanServers, if_neg h.1, if_pos h.2]

theorem scanServers_of_not_waiting {rounds : Nat} {i : Int} (h : ¬ Waiting serverId connections i) :
    scanServers serverId connections (rounds + 1) i =
      scanServers serverId connections rounds (i + 1) := by
  rw [scanServers]
  split
  next => rfl
  next hother => rw [if_neg fun hmessage => h ⟨hother, hmessage⟩]

theorem scanServers_some {rounds : Nat} {i j : Int}
    (h : scanServers serverId connections rounds i = some j) :
    i ≤ j ∧ j < i + rounds ∧ Waiting serverId connections j ∧
      ∀ k, i ≤ k → k < j → ¬ Waiting serverId connections k := by
  induction rounds generalizing i with
  | zero => cases h
  | succ rounds ih =>
      by_cases hwaits : Waiting serverId connections i
      · rw [scanServers_of_waiting hwaits] at h
        cases h
        exact ⟨le_rfl, by omega, hwaits, fun k hk hkj => by omega⟩
      · rw [scanServers_of_not_waiting hwaits] at h
        obtain ⟨hlow, hhigh, hfound, hfirst⟩ := ih h
        refine ⟨by omega, by omega, hfound, ?_⟩
        intro k hk hkj
        by_cases hki : k = i
        · rwa [hki]
        · exact hfirst k (by omega) hkj

theorem scanServers_none {rounds : Nat} {i : Int}
    (h : scanServers serverId connections rounds i = none) :
    ∀ k, i ≤ k → k < i + rounds → ¬ Waiting serverId connections k := by
  induction rounds generalizing i with
  | zero =>
      intro k hk hkj
      omega
  | succ rounds ih =>
      by_cases hwaits : Waiting serverId connections i
      · rw [scanServers_of_waiting hwaits] at h
        cases h
      · rw [scanServers_of_not_waiting hwaits] at h
        intro k hk hkj
        by_cases hki : k = i
        · rwa [hki]
        · exact ih h k (by omega) (by omega)

/-- What a call can do: it takes the first server that waits and goes on behind it, or it
finds that no server from `message_check` on waits and starts over. -/
theorem hasMessage_cases (serverId : Int) (connections : Connections)
    (hcheck : messageCheck < numServers) :
    (∃ i, messageCheck ≤ i ∧ i < numServers ∧ Waiting serverId connections i ∧
      (∀ k, messageCheck ≤ k → k < i → ¬ Waiting serverId connections k) ∧
      hasMessage numServers serverId connections messageCheck =
        (i, if i + 1 < numServers then i + 1 else 0)) ∨
    ((∀ k, messageCheck ≤ k → k < numServers → ¬ Waiting serverId connections k) ∧
      hasMessage numServers serverId connections messageCheck = (-1, 0)) := by
  have hrounds : messageCheck + ((numServers - messageCheck).toNat : Int) = numServers := by omega
  unfold hasMessage
  split
  next i hscan =>
    obtain ⟨hlow, hhigh, hwaits, hfirst⟩ := scanServers_some hscan
    rw [hrounds] at hhigh
    exact .inl ⟨i, hlow, hhigh, hwaits, hfirst, rfl⟩
  next hscan =>
    have hnone := scanServers_none hscan
    rw [hrounds] at hnone
    exact .inr ⟨hnone, rfl⟩

theorem hasMessage_inCluster (serverId : Int) (connections : Connections)
    (hcheck : InCluster numServers messageCheck) :
    InCluster numServers (hasMessage numServers serverId connections messageCheck).2 := by
  obtain ⟨hlow, hhigh⟩ := hcheck
  rcases hasMessage_cases serverId connections hhigh with ⟨i, hi, -, -, -, heq⟩ | ⟨-, heq⟩
  · rw [heq, InCluster]
    dsimp only
    split_ifs <;> omega
  · rw [heq]
    exact ⟨le_rfl, by omega⟩

theorem hasMessage_waiting (hcheck : messageCheck < numServers)
    (h : 0 ≤ (hasMessage numServers serverId connections messageCheck).1) :
    (hasMessage numServers serverId connections messageCheck).1 < numServers ∧
      Waiting serverId connections (hasMessage numServers serverId connections messageCheck).1 := by
  rcases hasMessage_cases serverId connections hcheck with ⟨i, -, hi, hwaits, -, heq⟩ | ⟨-, heq⟩
  · rw [heq]
    exact ⟨hi, hwaits⟩
  · rw [heq] at h
    exact absurd h (by decide)

theorem messageCheck_inCluster (hn : 1 ≤ numServers)
    (h : Reaches (hasMessageStep numServers serverId) anyAction 0 messageCheck) :
    InCluster numServers messageCheck := by
  refine Reaches.invariant ?_ (show InCluster numServers 0 from ⟨le_rfl, by omega⟩) h
  intro check connections check' hcheck _ hstep
  cases hstep
  exact hasMessage_inCluster serverId connections hcheck

def distanceTo (numServers j messageCheck : Int) : Nat :=
  (if messageCheck ≤ j then j - messageCheck else numServers - messageCheck + j).toNat

theorem hasMessage_closer {j : Int} (hj : 0 ≤ j) (hjn : j < numServers)
    (hcheck : messageCheck < numServers) (hwaits : Waiting serverId connections j) :
    (hasMessage numServers serverId connections messageCheck).1 = j ∨
      distanceTo numServers j (hasMessage numServers serverId connections messageCheck).2 <
        distanceTo numServers j messageCheck := by
  rcases hasMessage_cases serverId connections hcheck with
    ⟨i, hi, hin, -, hfirst, heq⟩ | ⟨hnone, heq⟩
  · rw [heq]
    by_cases hij : i = j
    · exact .inl hij
    · right
      -- a server that is still ahead is not passed over
      have hahead : messageCheck ≤ j → i < j := fun hle => by
        by_contra hlt
        exact hfirst j hle (by omega) hwaits
      unfold distanceTo
      dsimp only
      split_ifs <;> omega
  · have hbehind : j < messageCheck := by
      by_contra hle
      exact hnone j (by omega) hjn hwaits
    rw [heq]
    unfold distanceTo
    dsimp only
    right
    split_ifs <;> omega

end Scan

/-- A server waits for at most as many calls as there are servers. -/
theorem polling_starves_nobody {numServers serverId messageCheck : Int} (hn : 1 ≤ numServers)
    (h : Reaches (hasMessageStep numServers serverId) anyAction 0 messageCheck) :
    (0 ≤ messageCheck ∧ messageCheck < numServers) ∧
    (∀ connections i, (hasMessage numServers serverId connections messageCheck).1 = i → 0 ≤ i →
      i < numServers ∧ i ≠ serverId ∧ hasMessageFrom connections i = true) ∧
    ∀ j, 0 ≤ j → j < numServers → j ≠ serverId → ∀ calls : List Connections,
      (calls.length : Int) = numServers →
      (∀ connections ∈ calls, hasMessageFrom connections j = true) →
      j ∈ answers (fun check connections => hasMessage numServers serverId connections check)
        messageCheck calls := by
  have hcheck := messageCheck_inCluster hn h
  refine ⟨hcheck, ?_, ?_⟩
  · rintro connections i rfl hi
    exact hasMessage_waiting hcheck.2 hi
  · intro j hj hjn hother calls hlength hpending
    refine mem_answers_of_rank (InCluster numServers)
      (fun connections => hasMessageFrom connections j = true) (distanceTo numServers j) ?_
      hpending hcheck ?_
    · intro check connections hcheck hwaits
      refine (hasMessage_closer hj hjn hcheck.2 ⟨hother, hwaits⟩).imp_right fun hcloser => ?_
      exact ⟨hasMessage_inCluster serverId connections hcheck, hcloser⟩
    · obtain ⟨hlow, hhigh⟩ := hcheck
      unfold distanceTo
      split_ifs <;> omega

theorem polling_starves_nobody_busy :
    let busy : Connections := fun _ => some { Connection.empty with recvQueue := [sendDecline 0 0] }
    hasMessageFrom busy 2 = true ∧
      2 ∈ answers (fun check connections => hasMessage 3 1 connections check) 0
        [busy, busy, busy] := by
  intro busy
  refine ⟨rfl, (polling_starves_nobody (by decide) (.refl _ _ 0)).2.2 2 (by decide) (by decide)
    (by decide) [busy, busy, busy] rfl ?_⟩
  intro connections hmem
  simp only [List.mem_cons, List.not_mem_nil, or_false, or_self] at hmem
  rw [hmem]
  rfl

end RdmaMigration.Manager

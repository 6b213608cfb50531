import RdmaMigration.Migration.System
import RdmaMigration.Paging.Fetched

/-! # Pulls that fail

`Pull` returns -1 when a range is not registered on both sides. The fault handler
throws then; `PullAllPagesWithoutClose`, `PullPagesSync` and `on_transfer` without
paging do not look at the result and go on as if the bytes had arrived.
-/

namespace RdmaMigration.Migration

open Lib Network Paging Manager

section OnTransfer

variable {b : Build} {s s' t remote : Server} {source result : Int} {addr size : Nat}

def Known (s : Server) (source : Int) (addr size : Nat) : Prop :=
  (firstContaining (s.connections source).registrations Registration.length addr size).isSome ∧
    (firstContaining (s.connections source).remoteRegistrations RemoteRegion.length
      addr size).isSome

instance (s : Server) (source : Int) (addr size : Nat) : Decidable (Known s source addr size) :=
  inferInstanceAs (Decidable (_ ∧ _))

theorem pull_of_known (hknown : Known s source addr size)
    (h : s.pull remote source addr size = .ok (t, result)) :
    result = 0 ∧ ∀ a, Covers (addr, size) a → t.bytes a = remote.bytes a := by
  rcases Server.pull_cases h with ⟨hnone, -⟩ | ⟨-, rfl, rfl⟩
  · obtain ⟨mr, hmr⟩ := Option.isSome_iff_exists.mp hknown.1
    obtain ⟨region, hregion⟩ := Option.isSome_iff_exists.mp hknown.2
    simp [Connection.rdmaRead, hmr, hregion] at hnone
  · exact ⟨rfl, fun a ha => if_pos ha⟩

theorem receiveTransfer_pulls (hb : b.paging = false)
    (h : s.receiveTransfer b remote addr size source = .ok s') :
    ∃ t result, s.pull remote source addr size = .ok (t, result) ∧ s'.bytes = t.bytes := by
  obtain ⟨p, bytes, -, rfl, hpull⟩ := Server.receiveTransfer_cases h
  obtain ⟨result, hpull⟩ := hpull hb
  refine ⟨{ s with bytes := bytes }, result, hpull, ?_⟩
  simp only [Server.updateState]
  rw [Server.updateRecord_eq]

end OnTransfer

/-- With paging, in every run in which the callers that ignore a failing `Pull` meet
none; without, in every state in which the transferred range is registered. -/
theorem data_has_been_read (size : Nat) :
    (∀ (cfg : Threads.Config) (start : Nat) (accessible : Nat → Bool) (limiter : Nat → Int)
      (s₀ s : Threads.State), 0 < size → defaultPageSize ∣ start →
      pageCount size defaultPageSize < 2 ^ 31 →
      start + defaultPageSize * pageCount size defaultPageSize < 2 ^ 64 →
      Threads.received start size accessible limiter = some s₀ →
      Reaches (Threads.step cfg) Threads.Heeded s₀ s →
      ∀ k, s.pages.pages[k]? = some .local → Threads.AskedWhole size k →
        ∃ r ∈ s.reads, Threads.CoversPage start size k r) ∧
    ∀ (b : Build) (s s' remote : Server) (source : Int) (addr : Nat), b.paging = false →
      Known s source addr size → s.receiveTransfer b remote addr size source = .ok s' →
      ∃ t, s.pull remote source addr size = .ok (t, 0) ∧
        ∀ a, Covers (addr, size) a → s'.bytes a = remote.bytes a := by
  constructor
  · intro cfg start accessible limiter s₀ s hsize hstart hfew hspace h₀ h k hk hwhole
    exact Threads.local_pages_read hsize hstart hfew hspace h₀ h hk hwhole
  · intro b s s' remote source addr hb hknown h
    obtain ⟨t, result, hpull, hbytes⟩ := receiveTransfer_pulls hb h
    obtain ⟨rfl, hread⟩ := pull_of_known hknown hpull
    refine ⟨t, hpull, ?_⟩
    intro a ha
    rw [hbytes]
    exact hread a ha

/-- A segment of 4096 bytes is prepared at server 0, and a transfer of `size` bytes of
it has been delivered to server 1. -/
def transferred (size : Nat) : List System.Action :=
  [.allocate 0 4096 none (some (2 ^ 44)), .write 0 (2 ^ 44) 5 7, .prepare 0 (2 ^ 44) 4096 1,
    .deliver 0 1, .poll 1 0 (some (2 ^ 44)), .deliver 1 0, .poll 0 1 none, .pollForAccept 0,
    .transfer 0 (2 ^ 44) size 1, .deliver 0 1]

/-- A fault on the first page is refused while the prefetcher fetches the second; and
a transfer of the prepared size. -/
theorem data_has_been_read_two :
    (∃ s₀ s, Threads.received (2 ^ 44) 8192 (fun _ => true) (fun _ => 0) = some s₀ ∧
      Reaches (Threads.step ⟨true, false, 1⟩) Threads.Heeded s₀ s ∧
      s.pages.pages = [.inFlight, .local] ∧
      ∃ r ∈ s.reads, Threads.CoversPage (2 ^ 44) 8192 1 r) ∧
    ∃ st s', Reaches (System.step ⟨false, false⟩) anyAction (System.initial 2) st ∧
      (st.server 1).receiveTransfer ⟨false, false⟩ (st.server 0) (2 ^ 44) 4096 0 = .ok s' ∧
      (∃ t, (st.server 1).pull (st.server 0) 0 (2 ^ 44) 4096 = .ok (t, 0)) ∧
      s'.bytes (2 ^ 44 + 5) = (st.server 0).bytes (2 ^ 44 + 5) := by
  constructor
  · have hrun : ((Threads.received (2 ^ 44) 8192 (fun _ => true) (fun _ => 0)).bind fun s₀ =>
        checkedRun (Threads.step ⟨true, false, 1⟩) Threads.Heeded s₀
          ([.fault (2 ^ 44 + 5), .call .pullAllPagesWithoutClose] ++ Threads.turns 0 1 ++
            [.turn 0 (.read false)] ++ Threads.turns 1 7 ++ Threads.fetch 1 ++
            Threads.turns 1 3)).map (·.pages.pages) = some [.inFlight, .local] := by
      decide +kernel
    obtain ⟨s, hs, hpages⟩ := Option.map_eq_some_iff.mp hrun
    obtain ⟨s₀, h₀, hacts⟩ := Option.bind_eq_some_iff.mp hs
    have hreach := reaches_of_checkedRun hacts
    exact ⟨s₀, s, h₀, hreach, hpages, (data_has_been_read 8192).1 _ _ _ _ s₀ s (by decide)
      (by decide) (by decide) (by decide) h₀ hreach 1 (by rw [hpages]; rfl) (by decide)⟩
  · have hrun : (run (System.step ⟨false, false⟩) (System.initial 2) (transferred 4096)).map
        (fun st => (decide (Known (st.server 1) 0 (2 ^ 44) 4096),
          ((st.server 1).receiveTransfer ⟨false, false⟩ (st.server 0) (2 ^ 44) 4096 0).isOk)) =
        some (true, true) := by
      decide +kernel
    obtain ⟨st, hreach, hfacts⟩ := reaches_of_map_run hrun
    simp only [Prod.mk.injEq, decide_eq_true_eq] at hfacts
    obtain ⟨hknown, hok⟩ := hfacts
    cases hreceive : (st.server 1).receiveTransfer ⟨false, false⟩ (st.server 0) (2 ^ 44) 4096 0 with
    | error e =>
        rw [hreceive] at hok
        cases hok
    | ok s' =>
        obtain ⟨t, hpull, hbytes⟩ := (data_has_been_read 4096).2 _ _ s' _ _ _ rfl hknown
          hreceive
        exact ⟨st, s', hreach, hreceive, ⟨t, hpull⟩, hbytes _ (by decide)⟩

/-- The prefetcher stores `Local` for a page whose `Pull` has returned -1. The fault
handler asks for 1096 of the 3000 bytes of a last page. A transfer of more than was
prepared is refused, and the segment is enqueued with zeros for its bytes. -/
theorem failed_pull_counts :
    (∃ s₀ s, Threads.received (2 ^ 44) 4096 (fun _ => true) (fun _ => 0) = some s₀ ∧
      Reaches (Threads.step ⟨true, false, 1⟩) anyAction s₀ s ∧
      s.pages.pages = [.local] ∧ s.reads = []) ∧
    (∃ s₀ s, Threads.received (2 ^ 44) 3000 (fun _ => true) (fun _ => 0) = some s₀ ∧
      Reaches (Threads.step ⟨true, false, 1⟩) anyAction s₀ s ∧
      s.pages.pages = [.local] ∧ s.reads = [(2 ^ 44, 1096)]) ∧
    ∃ st st', Reaches (System.step ⟨false, false⟩) anyAction (System.initial 2) st ∧
      ((st.server 1).pull (st.server 0) 0 (2 ^ 44) 8192).toOption.map Prod.snd = some (-1) ∧
      (st.server 1).incomingTransfers = [] ∧
      System.step ⟨false, false⟩ st (.poll 1 0 none) = some st' ∧
      (st'.server 1).heap.map (·.state) = [.clean] ∧ (st'.server 1).incomingTransfers = [0] ∧
      (st'.server 1).bytes (2 ^ 44 + 5) = 0 ∧ (st'.server 0).bytes (2 ^ 44 + 5) = 7 := by
  refine ⟨?_, ?_, ?_⟩
  · have hrun : ((Threads.received (2 ^ 44) 4096 (fun _ => true) (fun _ => 0)).bind fun s₀ =>
        run (Threads.step ⟨true, false, 1⟩) s₀ ([.call .pullAllPagesWithoutClose] ++
          Threads.turns 0 4 ++ [.turn 0 (.read false)] ++ Threads.turns 0 2)).map
        (fun s => (s.pages.pages, s.reads)) = some ([.local], []) := by
      decide +kernel
    obtain ⟨s, hs, hfacts⟩ := Option.map_eq_some_iff.mp hrun
    obtain ⟨s₀, h₀, hacts⟩ := Option.bind_eq_some_iff.mp hs
    simp only [Prod.mk.injEq] at hfacts
    exact ⟨s₀, s, h₀, reaches_of_run hacts, hfacts⟩
  · have hrun : ((Threads.received (2 ^ 44) 3000 (fun _ => true) (fun _ => 0)).bind fun s₀ =>
        run (Threads.step ⟨true, false, 1⟩) s₀ ([.fault (2 ^ 44)] ++ Threads.turns 0 1 ++
          Threads.fetch 0 ++ Threads.turns 0 2)).map
        (fun s => (s.pages.pages, s.reads)) = some ([.local], [(2 ^ 44, 1096)]) := by
      decide +kernel
    obtain ⟨s, hs, hfacts⟩ := Option.map_eq_some_iff.mp hrun
    obtain ⟨s₀, h₀, hacts⟩ := Option.bind_eq_some_iff.mp hs
    simp only [Prod.mk.injEq] at hfacts
    exact ⟨s₀, s, h₀, reaches_of_run hacts, hfacts⟩
  · have hrun : ((run (System.step ⟨false, false⟩) (System.initial 2) (transferred 8192)).bind
        fun st => (System.step ⟨false, false⟩ st (.poll 1 0 none)).map fun st' => (st, st')).map
        (fun st => ((((st.1.server 1).pull (st.1.server 0) 0 (2 ^ 44) 8192).toOption.map Prod.snd,
          (st.1.server 1).incomingTransfers), ((st.2.server 1).heap.map (·.state),
          (st.2.server 1).incomingTransfers), (st.2.server 1).bytes (2 ^ 44 + 5),
          (st.2.server 0).bytes (2 ^ 44 + 5))) =
        some ((some (-1), []), ([.clean], [0]), 0, 7) := by
      decide +kernel
    obtain ⟨⟨st, st'⟩, hpair, hfacts⟩ := Option.map_eq_some_iff.mp hrun
    obtain ⟨st₁, hst, hstep⟩ := Option.bind_eq_some_iff.mp hpair
    obtain ⟨st₂, hpoll, heq⟩ := Option.map_eq_some_iff.mp hstep
    cases heq
    simp only [Prod.mk.injEq] at hfacts
    obtain ⟨⟨hpull, hempty⟩, ⟨hclean, hqueue⟩, hhere, hthere⟩ := hfacts
    exact ⟨st, st', reaches_of_run hst, hpull, hempty, hpoll, hclean, hqueue, hhere, hthere⟩

end RdmaMigration.Migration

import Mathlib.Data.List.Forall2
import RdmaMigration.Migration.View

/-! # What was sent, handled and entered

Between two servers, the messages posted are the ones handled followed by the
ones under way. What a server's poller has handled determines what it has put
into the three queues, entry by entry.
-/

namespace RdmaMigration.Migration.System

open Lib Function Network Manager

def State.handledFrom {S : Type} (st : State S) (s d : Int) : List RdmaMessage :=
  (st.handled d).filterMap fun e => if e.1 = s then some e.2 else none

def addresses (type : MessageType) (ms : List RdmaMessage) : List Nat :=
  (ms.filter (·.messageType = type)).map (·.regionInfo.addr)

/-- The records pointed to lie at the addresses, one by one. -/
def Refers (extents : List (Nat × Nat)) (ps addrs : List Nat) : Prop :=
  List.Forall₂ (fun p addr => ∃ n, extents[p]? = some (addr, n)) ps addrs

@[simp] theorem addresses_append (type : MessageType) (ms ms' : List RdmaMessage) :
    addresses type (ms ++ ms') = addresses type ms ++ addresses type ms' := by
  simp [addresses]

theorem addresses_single {type : MessageType} {m : RdmaMessage} :
    addresses type [m] = if m.messageType = type then [m.regionInfo.addr] else [] := by
  by_cases h : m.messageType = type
  · simp [addresses, h]
  · simp [addresses, h]

theorem Refers.grow {extents extents' : List (Nat × Nat)} {ps addrs : List Nat}
    (h : Refers extents ps addrs)
    (hgrow : ∀ (p : Nat) x, extents[p]? = some x → extents'[p]? = some x) :
    Refers extents' ps addrs :=
  List.Forall₂.imp (fun p _ ⟨n, hn⟩ => ⟨n, hgrow p _ hn⟩) h

theorem Refers.append {extents : List (Nat × Nat)} {ps ps' addrs addrs' : List Nat}
    (h : Refers extents ps addrs) (h' : Refers extents ps' addrs') :
    Refers extents (ps ++ ps') (addrs ++ addrs') :=
  List.rel_append h h'

def State.entered (st : State Face) (i : Int) (type : MessageType) (ps : List Nat) : Prop :=
  Refers (st.server i).extents ps (addresses type ((st.handled i).map Prod.snd))

structure Logs (st : State Face) : Prop where
  posted : ∀ s d, st.posted s d = st.handledFrom s d ++ st.queue s d
  replies : ∀ s d, addresses .accept (st.posted d s) = addresses .prepare (st.handledFrom s d)
  accepts : ∀ i, st.entered i .accept (st.polledAccepts i ++ (st.server i).accepts)
  transfers : ∀ i, st.entered i .transfer (st.polledTransfers i ++ (st.server i).transfers)
  dones : ∀ i, st.entered i .doneTransfer (st.polledDones i ++ (st.server i).dones)

section Steps

variable {st : State Face}

theorem Logs.setServer (h : Logs st) {i : Int} {f : Face}
    (hqueue : ∀ s, (f.connections s).recvQueue = ((st.server i).connections s).recvQueue)
    (hgrow : ∀ (p : Nat) x, (st.server i).extents[p]? = some x → f.extents[p]? = some x)
    (haccepts : f.accepts = (st.server i).accepts)
    (htransfers : f.transfers = (st.server i).transfers)
    (hdones : f.dones = (st.server i).dones) : Logs (st.setServer i f) := by
  have hsame : (st.setServer i f).queue = st.queue := by
    funext x y
    by_cases hy : y = i
    · simp [State.queue, State.setServer, hy, hqueue]
    · simp [State.queue, State.setServer, hy]
  have hentered : ∀ {x type ps}, st.entered x type ps → (st.setServer i f).entered x type ps := by
    intro x type ps hx
    by_cases hxi : x = i
    · rw [hxi] at hx ⊢
      simpa [State.entered, State.setServer] using hx.grow hgrow
    · simpa [State.entered, State.setServer, hxi] using hx
  have hqueues : ∀ x, ((st.setServer i f).server x).accepts = (st.server x).accepts ∧
      ((st.setServer i f).server x).transfers = (st.server x).transfers ∧
      ((st.setServer i f).server x).dones = (st.server x).dones := by
    intro x
    by_cases hxi : x = i
    · simp [State.setServer, hxi, haccepts, htransfers, hdones]
    · simp [State.setServer, hxi]
  refine ⟨fun s d => ?_, h.replies, fun x => ?_, fun x => ?_, fun x => ?_⟩
  · rw [hsame]
    exact h.posted s d
  · rw [(hqueues x).1]
    exact hentered (h.accepts x)
  · rw [(hqueues x).2.1]
    exact hentered (h.transfers x)
  · rw [(hqueues x).2.2]
    exact hentered (h.dones x)

theorem Logs.post (h : Logs st) {s d : Int} {m : RdmaMessage} (hm : m.messageType ≠ .accept) :
    Logs (st.post s d m) := by
  refine ⟨fun x y => ?_, fun x y => ?_, h.accepts, h.transfers, h.dones⟩
  · by_cases hxy : (x, y) = (s, d)
    · simp only [Prod.mk.injEq] at hxy
      have hposted := h.posted s d
      simp only [State.queue] at hposted
      rw [hxy.1, hxy.2]
      simp [State.post, State.queue, State.handledFrom, hposted]
    · have hposted := h.posted x y
      simp only [State.queue] at hposted
      simp only [State.post, State.queue, update₂_ne _ _ hxy, hposted]
      rfl
  · by_cases hxy : (y, x) = (s, d)
    · simp only [Prod.mk.injEq] at hxy
      have hreplies := h.replies d s
      rw [hxy.1, hxy.2]
      simp only [State.post, update₂_self, addresses_append, addresses_single, if_neg hm,
        List.append_nil]
      exact hreplies
    · simp only [State.post, update₂_ne _ _ hxy]
      exact h.replies x y

/-- The records entered into a queue are those of the addresses listed. -/
def Entered (extents : List (Nat × Nat)) (before after : List Nat) (addrs : List Nat) : Prop :=
  ∃ ps, after = before ++ ps ∧ Refers extents ps addrs

theorem entered_handle {d s : Int} {m : RdmaMessage} {f : Face} {st' : State Face}
    {type : MessageType} {taken : Int → List Nat} (queue : Face → List Nat)
    (hgrow : ∀ (p : Nat) x, (st.server d).extents[p]? = some x → f.extents[p]? = some x)
    (hserver : st'.server = update st.server d f)
    (hhandled : st'.handled = update st.handled d (st.handled d ++ [(s, m)]))
    (hentries : Entered f.extents (queue (st.server d)) (queue f) (addresses type [m]))
    (hold : ∀ x, st.entered x type (taken x ++ queue (st.server x))) (x : Int) :
    st'.entered x type (taken x ++ queue (st'.server x)) := by
  by_cases hx : x = d
  · subst hx
    obtain ⟨ps, hps, hrefers⟩ := hentries
    have hself : st'.server x = f := by simp [hserver]
    rw [hself, hps, ← List.append_assoc]
    simpa [State.entered, hself, hhandled] using ((hold x).grow hgrow).append hrefers
  · have hother : st'.server x = st.server x := by simp [hserver, hx]
    simpa [State.entered, hother, hhandled, update_of_ne hx] using hold x

theorem Logs.handle (h : Logs st) {d s : Int} {m : RdmaMessage} {f : Face}
    {reply : List RdmaMessage} {st' : State Face} (hne : d ≠ s)
    (hconnections : ∀ x, x ≠ s → f.connections x = (st.server d).connections x)
    (hqueue : ((st.server d).connections s).recvQueue = m :: (f.connections s).recvQueue)
    (hgrow : ∀ (p : Nat) x, (st.server d).extents[p]? = some x → f.extents[p]? = some x)
    (hreply : addresses .accept reply = addresses .prepare [m])
    (haccepts : Entered f.extents (st.server d).accepts f.accepts (addresses .accept [m]))
    (htransfers : Entered f.extents (st.server d).transfers f.transfers (addresses .transfer [m]))
    (hdones : Entered f.extents (st.server d).dones f.dones (addresses .doneTransfer [m]))
    (hserver : st'.server = update st.server d f)
    (hwire : st'.wire = update₂ st.wire d s (st.wire d s ++ reply))
    (hposted : st'.posted = update₂ st.posted d s (st.posted d s ++ reply))
    (hhandled : st'.handled = update st.handled d (st.handled d ++ [(s, m)]))
    (hpolled : st'.polledAccepts = st.polledAccepts ∧ st'.polledTransfers = st.polledTransfers ∧
      st'.polledDones = st.polledDones) : Logs st' := by
  have hfrom : st'.handledFrom s d = st.handledFrom s d ++ [m] := by
    simp [State.handledFrom, hhandled]
  have hfromNe : ∀ x y, (x, y) ≠ (s, d) → st'.handledFrom x y = st.handledFrom x y := by
    intro x y hxy
    by_cases hy : y = d
    · have hx : s ≠ x := fun hx => hxy (by rw [hy, hx])
      simp [State.handledFrom, hhandled, hy, hx]
    · simp [State.handledFrom, hhandled, hy]
  have hself : st'.server d = f := by simp [hserver]
  have hother : ∀ x, x ≠ d → st'.server x = st.server x := fun x hx => by simp [hserver, hx]
  refine ⟨fun x y => ?_, fun x y => ?_, fun x => ?_, fun x => ?_, fun x => ?_⟩
  · have hold := h.posted x y
    simp only [State.queue] at hold ⊢
    by_cases hback : (x, y) = (s, d)
    · simp only [Prod.mk.injEq] at hback
      have hsd : (s, d) ≠ (d, s) := by simp [hne.symm]
      rw [hback.1, hback.2] at hold ⊢
      rw [hfrom, hself, hposted, hwire, update₂_ne _ _ hsd, update₂_ne _ _ hsd, hold, hqueue]
      simp
    · rw [hfromNe x y hback, hposted, hwire]
      by_cases hout : (x, y) = (d, s)
      · simp only [Prod.mk.injEq] at hout
        rw [hout.1, hout.2] at hold ⊢
        rw [update₂_self, update₂_self, hother s hne.symm, hold]
        simp
      · rw [update₂_ne _ _ hout, update₂_ne _ _ hout]
        by_cases hy : y = d
        · have hx : x ≠ s := fun hx => hback (by rw [hx, hy])
          rw [hy] at hold ⊢
          rw [hself, hconnections x hx]
          exact hold
        · rw [hother y hy]
          exact hold
  · have hold := h.replies x y
    by_cases hback : (x, y) = (s, d)
    · simp only [Prod.mk.injEq] at hback
      rw [hback.1, hback.2] at hold ⊢
      rw [hposted, update₂_self, hfrom, addresses_append, addresses_append, hold, hreply]
    · have hyx : (y, x) ≠ (d, s) := fun heq => hback (by
        simp only [Prod.mk.injEq] at heq ⊢
        exact ⟨heq.2, heq.1⟩)
      rw [hposted, update₂_ne _ _ hyx, hfromNe x y hback]
      exact hold
  · rw [hpolled.1]
    exact entered_handle Face.accepts hgrow hserver hhandled haccepts h.accepts x
  · rw [hpolled.2.1]
    exact entered_handle Face.transfers hgrow hserver hhandled htransfers h.transfers x
  · rw [hpolled.2.2]
    exact entered_handle Face.dones hgrow hserver hhandled hdones h.dones x

end Steps

end RdmaMigration.Migration.System

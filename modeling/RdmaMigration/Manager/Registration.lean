import RdmaMigration.Manager.Protocol

/-! # The lengths of registrations

`Prepare` and `accept` register a segment through `register_memory_with_conn`, whose
size parameter is an `int`, while the `MSG_TRANSFER` announces the size as it is. A
read of the segment has to find the range in both maps.
-/

namespace RdmaMigration.Manager

open Lib Network

theorem registration_length (s : Server) (peer : Int) (addr size : Nat) :
    (((s.registerMemory peer addr size).connections peer).registrations.lookup addr).map
      Registration.length = some (toSizeT (toInt32 size)) := by
  simp [Server.registerMemory, Server.setConnection, Connection.registerMemory]

theorem prepare_registration {b : Build} {s s' : Server} {addr size : Nat} {peer : Int}
    {clientId : RDMAMemory → List Char} {m : RdmaMessage}
    (h : s.prepare b addr size peer clientId = .ok (s', m)) :
    (((s'.connections peer).registrations.lookup addr).map Registration.length) =
      some (toSizeT (toInt32 size)) := by
  obtain ⟨p, memory, key, -, -, rfl, -⟩ := Server.prepare_cases h
  exact registration_length _ _ _ _

theorem transfer_regionInfo {b : Build} {s s' : Server} {addr size : Nat} {peer : Int}
    {m : RdmaMessage} (h : s.transfer b addr size peer = .ok (s', m)) :
    m.messageType = .transfer ∧ m.regionInfo.addr = addr ∧ m.regionInfo.length = size := by
  obtain ⟨p, mr, -, -, -, rfl⟩ := Server.transfer_cases h
  exact ⟨rfl, rfl, rfl⟩

theorem rdmaRead_of_whole {c : Connection} {m : RdmaMessage} {addr size : Nat}
    (hlength : (c.registrations.lookup addr).map Registration.length = some size)
    (htype : m.messageType = .transfer) (haddr : m.regionInfo.addr = addr)
    (hsize : m.regionInfo.length = size) (hend : addr + size < 2 ^ 64) {a len : Nat}
    (hlo : addr ≤ a) (hhi : a + len ≤ addr + size) : ((c.receive m).rdmaRead a a len).isSome := by
  obtain ⟨mr, hmr, hlen⟩ := Option.map_eq_some_iff.mp hlength
  have hfits : wrap64 (a + len) ≤ wrap64 (addr + size) := by
    rw [wrap64_of_lt (by omega), wrap64_of_lt hend]
    exact hhi
  have hlocal : (firstContaining (c.receive m).registrations Registration.length a len).isSome := by
    have hkept : (c.receive m).registrations = c.registrations := by
      simp [Connection.receive, Connection.announce, htype]
    rw [hkept]
    exact firstContaining_isSome hmr hlo (by rwa [hlen])
  have hremote : (firstContaining (c.receive m).remoteRegistrations RemoteRegion.length a
      len).isSome := by
    have hknown : (c.receive m).remoteRegistrations.lookup addr = some m.regionInfo := by
      simp [Connection.receive, Connection.announce, htype, haddr]
    exact firstContaining_isSome hknown hlo (by rwa [hsize])
  obtain ⟨mr', hmr'⟩ := Option.isSome_iff_exists.mp hlocal
  obtain ⟨region, hregion⟩ := Option.isSome_iff_exists.mp hremote
  simp [Connection.rdmaRead, hmr', hregion]

/-- In either build; `t` is the destination when `allocate` in `accept` has returned, and
`u` the source when it calls `Transfer`. -/
theorem segment_registered_whole {b : Build} {s s' t t' u u' : Server} {source destination : Int}
    {addr size : Nat} {clientId : RDMAMemory → List Char} {prepare reply transfer : RdmaMessage}
    (hprepare : s.prepare b addr size destination clientId = .ok (s', prepare))
    (hanswer : t.answer b addr size source (some addr) = (t', reply))
    (htransfer : u.transfer b addr size destination = .ok (u', transfer))
    (hend : addr + size ≤ allocatableRangeEnd) :
    (((s'.connections destination).registrations.lookup addr).map Registration.length = some size ∧
      ((t'.connections source).registrations.lookup addr).map Registration.length = some size ∧
      ∀ a len, addr ≤ a → a + len ≤ addr + size →
        (((t'.connections source).receive transfer).rdmaRead a a len).isSome) ↔
    size < 2 ^ 31 := by
  have hspace : addr + size < 2 ^ 47 := Nat.lt_of_le_of_lt hend (by decide)
  have hsource := prepare_registration hprepare
  have hdestination : ((t'.connections source).registrations.lookup addr).map
      Registration.length = some (toSizeT (toInt32 size)) := by
    rw [Server.answer, Prod.mk.injEq] at hanswer
    rw [← hanswer.1]
    exact registration_length _ _ _ _
  obtain ⟨htype, haddr, hsize⟩ := transfer_regionInfo htransfer
  constructor
  · rintro ⟨hlength, -, -⟩
    rw [hsource, Option.some.injEq] at hlength
    exact (toSizeT_toInt32_eq_iff (by omega)).mp hlength
  · intro hsmall
    have hwhole := (toSizeT_toInt32_eq_iff (show size < 2 ^ 47 by omega)).mpr hsmall
    rw [hwhole] at hsource hdestination
    exact ⟨hsource, hdestination, fun a len hlo hhi =>
      rdmaRead_of_whole hdestination htype haddr hsize (by omega) hlo hhi⟩

def sender (size : Nat) : Server := ((Server.construct 2 0).allocate size none (some (2 ^ 44))).1

def receiver (size : Nat) : Server :=
  ((Server.construct 2 1).allocateAt ⟨false, false⟩ size 0 (some (2 ^ 44))).1

theorem segment_registered_whole_page : ∃ s' t' u' prepare reply transfer,
    (sender 4096).prepare ⟨false, false⟩ (2 ^ 44) 4096 1 (fun _ => []) = .ok (s', prepare) ∧
    (receiver 4096).answer ⟨false, false⟩ (2 ^ 44) 4096 0 (some (2 ^ 44)) = (t', reply) ∧
    s'.transfer ⟨false, false⟩ (2 ^ 44) 4096 1 = .ok (u', transfer) ∧
    (((t'.connections 0).receive transfer).rdmaRead (2 ^ 44 + 100) (2 ^ 44 + 100) 200).isSome := by
  obtain ⟨⟨s', prepare⟩, hprepare, ⟨u', transfer⟩, htransfer⟩ : ∃ r,
      (sender 4096).prepare ⟨false, false⟩ (2 ^ 44) 4096 1 (fun _ => []) = .ok r ∧
      ∃ r', r.1.transfer ⟨false, false⟩ (2 ^ 44) 4096 1 = .ok r' := ⟨_, rfl, _, rfl⟩
  have hanswer : (receiver 4096).answer ⟨false, false⟩ (2 ^ 44) 4096 0 (some (2 ^ 44)) =
    (_, _) := rfl
  have hread := ((segment_registered_whole hprepare hanswer htransfer
    (by decide)).mpr (by decide)).2.2 (2 ^ 44 + 100) 200 (by decide) (by decide)
  exact ⟨s', _, u', prepare, _, transfer, hprepare, rfl, htransfer, hread⟩

/-- A segment of 4 GiB and one page: both registrations cover one page, and the read of
the segment finds no region. -/
theorem large_segment_not_registered : ∃ s' t' u' prepare reply transfer,
    (sender (2 ^ 32 + 4096)).prepare ⟨false, false⟩ (2 ^ 44) (2 ^ 32 + 4096) 1 (fun _ => []) =
      .ok (s', prepare) ∧
    (receiver (2 ^ 32 + 4096)).answer ⟨false, false⟩ (2 ^ 44) (2 ^ 32 + 4096) 0
      (some (2 ^ 44)) = (t', reply) ∧
    s'.transfer ⟨false, false⟩ (2 ^ 44) (2 ^ 32 + 4096) 1 = .ok (u', transfer) ∧
    ((s'.connections 1).registrations.lookup (2 ^ 44)).map Registration.length = some 4096 ∧
    ((t'.connections 0).registrations.lookup (2 ^ 44)).map Registration.length = some 4096 ∧
    ((t'.connections 0).receive transfer).rdmaRead (2 ^ 44) (2 ^ 44) (2 ^ 32 + 4096) = none :=
  ⟨_, _, _, _, _, _, rfl, rfl, rfl, rfl, rfl, rfl⟩

end RdmaMigration.Manager

/-
SlopDesk.Document.CodecTheorems — the document codec reads back what it wrote, and
only that.
-/
import SlopDesk.Document.Codec
import SlopDesk.Document.StateTheorems
import SlopDesk.Wire.BytesTheorems

/-! # Snapshots and diffs survive the wire.

§1 writes the layout of a list of entries out, §2 reads it back: within the
caps every check of the reader passes and each loop reads what its writer
wrote. §3 has the reader refuse whatever is over a cap, so that no other
document is ever decoded. §4 is the document algebra carried over the wire.
-/

namespace SlopDesk.Document

open SlopDesk.Base
open SlopDesk.Base.Parser
open SlopDesk.Wire

variable {n : Nat} {p : Decoder α} {sets : List WorkspaceEntry}
variable {layout : α → List UInt8} {entry : WorkspaceEntry} {deletes : List WorkspaceKey} {bs : List UInt8}
variable {s : HostWorkspaceState} {d : WorkspaceStateDiff}

/-! ## §1 Writing -/

/-- The layout of a key. -/
def keyBytes (key : WorkspaceKey) : List UInt8 := [key.kind] ++ (key.objectId.bytes ++ [key.field])

/-- The layout of an entry. -/
def wireEntry (entry : WorkspaceEntry) : List UInt8 :=
  keyBytes entry.key ++ (toBe 4 (saturatingU32 entry.value.length).toNat ++ entry.value)

@[simp] theorem length_keyBytes (key : WorkspaceKey) :
    (keyBytes key).length = WorkspaceKey.encodedSize := by
  simp [keyBytes, key.objectId.size, sessionIdByteCount, WorkspaceKey.encodedSize]

theorem length_wireEntry (entry : WorkspaceEntry) :
    (wireEntry entry).length = entryFloorBytes + entry.value.length := by
  simp only [wireEntry, List.length_append, length_keyBytes, length_toBe, entryFloorBytes]
  omega

theorem writes_putKey (key : WorkspaceKey) : Writes (putKey key) (keyBytes key) :=
  (writes_putU8 key.kind).seq ((writes_putBytes _).seq (writes_putU8 key.field))

theorem writes_putEntry (entry : WorkspaceEntry) : Writes (putEntry entry) (wireEntry entry) :=
  (writes_putKey entry.key).seq ((writes_putU32 _).seq (writes_putBytes _))

theorem writes_forM {put : α → Put} (h : ∀ x, Writes (put x) (layout x))
    (xs : List α) : Writes (xs.forM put) (xs.flatMap layout) := by
  induction xs with
  | nil => exact writes_nil
  | cons x xs ih => exact (h x).seq ih

theorem encodeSnapshot_eq (s : HostWorkspaceState) :
    encodeSnapshot s = toBe 4 (saturatingU32 s.sortedEntries.length).toNat
      ++ s.sortedEntries.flatMap wireEntry := by
  have hwrites : Writes (putSnapshot s) _ :=
    (writes_putU32 (saturatingU32 s.sortedEntries.length)).seq
      (writes_forM writes_putEntry s.sortedEntries)
  have hrun : ((putSnapshot s).run ByteWriter.new).2 = _ := hwrites.owned []
  rw [encodeSnapshot, hrun]
  rfl

theorem encodeDiff_eq (d : WorkspaceStateDiff) :
    encodeDiff d = toBe 4 (saturatingU32 d.sets.length).toNat ++ (d.sets.flatMap wireEntry
      ++ (toBe 4 (saturatingU32 d.deletes.length).toNat ++ d.deletes.flatMap keyBytes)) := by
  have hwrites : Writes (putDiff d) _ :=
    (writes_putU32 (saturatingU32 d.sets.length)).seq ((writes_forM writes_putEntry d.sets).seq
      ((writes_putU32 (saturatingU32 d.deletes.length)).seq (writes_forM writes_putKey d.deletes)))
  have hrun : ((putDiff d).run ByteWriter.new).2 = _ := hwrites.owned []
  rw [encodeDiff, hrun]
  rfl

/-! ## §2 Reading back -/

theorem toNat_saturatingU32 (h : n < 4294967296) : (saturatingU32 n).toNat = n := by
  rw [saturatingU32, if_pos h, UInt32.toNat_ofNat']
  exact Nat.mod_eq_of_lt h

theorem reads_readUuid (id : RawUuid) : Reads readUuid id.bytes id := by
  have hbytes := reads_readBytes id.bytes
  rw [id.size] at hbytes
  have hread : Reads readUuid (id.bytes ++ []) id :=
    Reads.bind hbytes (by rw [dif_pos id.size]; exact reads_pure rfl)
  rwa [List.append_nil] at hread

theorem reads_readKey (key : WorkspaceKey) : Reads readKey (keyBytes key) key :=
  Reads.bind (reads_readU8 key.kind) (Reads.bind (reads_readUuid key.objectId)
    (Reads.answer (reads_readU8 key.field) rfl))

theorem reads_readValue {value : List UInt8} (h : value.length ≤ maxEntryValueBytes) :
    Reads (readValue value.length) value value := by
  refine readsTo_bytesRemaining fun left hleft => ?_
  rw [if_neg (by omega)]
  exact reads_readBytes value

theorem reads_readEntry (h : entry.value.length ≤ maxEntryValueBytes) :
    Reads readEntry (wireEntry entry) entry := by
  have hsize : (saturatingU32 entry.value.length).toNat = entry.value.length :=
    toNat_saturatingU32 (by simp only [maxEntryValueBytes] at h; omega)
  have hvalue := reads_readValue h
  rw [← hsize] at hvalue
  exact Reads.bind (reads_readKey entry.key) (Reads.bind (reads_readU32 _)
    (Reads.answer hvalue rfl))

theorem reads_readMany {xs : List α}
    (h : ∀ x ∈ xs, Reads p (layout x) x) : Reads (readMany p xs.length) (xs.flatMap layout) xs := by
  induction xs with
  | nil => exact reads_pure rfl
  | cons x xs ih =>
    have hrest := ih fun y hy => h y (List.mem_cons_of_mem _ hy)
    exact Reads.bind (h x (List.mem_cons_self ..)) (Reads.answer hrest rfl)

theorem floor_le_length (layout : α → List UInt8) {least : Nat} (xs : List α)
    (h : ∀ x, least ≤ (layout x).length) : xs.length * least ≤ (xs.flatMap layout).length := by
  induction xs with
  | nil => simp
  | cons x xs ih =>
    have hx := h x
    simp only [List.length_cons, List.flatMap_cons, List.length_append, Nat.succ_mul]
    omega

theorem not_over (h : n ≤ 65536) : ¬ saturatingU32 n > maxEntryCount ∧ (saturatingU32 n).toNat = n := by
  have hsize : (saturatingU32 n).toNat = n := toNat_saturatingU32 (by omega)
  refine ⟨?_, hsize⟩
  rw [gt_iff_lt, UInt32.lt_iff_toNat_lt, hsize]
  exact Nat.not_lt.mpr h

theorem reads_readEntries (hcount : sets.length ≤ 65536)
    (hsize : ∀ e ∈ sets, e.value.length ≤ maxEntryValueBytes) :
    Reads (readEntries (saturatingU32 sets.length)) (sets.flatMap wireEntry) sets := by
  obtain ⟨hcap, hlength⟩ := not_over hcount
  have hfloor := floor_le_length wireEntry sets fun entry =>
    (length_wireEntry entry).symm ▸ Nat.le_add_right entryFloorBytes _
  rw [readEntries, if_neg hcap]
  refine readsTo_bytesRemaining fun left hleft => ?_
  rw [hlength, if_neg (by omega)]
  exact reads_readMany fun e he => reads_readEntry (hsize e he)

theorem reads_readDeletes (hcount : deletes.length ≤ 65536) :
    Reads (readDeletes (saturatingU32 deletes.length)) (deletes.flatMap keyBytes) deletes := by
  obtain ⟨hcap, hlength⟩ := not_over hcount
  have hfloor := floor_le_length keyBytes deletes fun key => Nat.le_of_eq (length_keyBytes key).symm
  rw [readDeletes, if_neg hcap]
  refine readsTo_bytesRemaining fun left hleft => ?_
  rw [hlength, if_neg (by omega)]
  exact reads_readMany fun key _ => reads_readKey key

theorem readsRest_expectEnd (hint : String) (value : α) : ReadsRest (expectEnd hint value) [] value := by
  apply readsRestTo_bytesRemaining
  exact readsRest_pure value

theorem run_of_readsRest {a : α} (h : ReadsRest p bs a) : p.run bs 0 = .ok (a, bs.length) := by
  obtain ⟨_, rfl, hrun⟩ := h []
  simpa using hrun

/-- A snapshot within the caps of its decoder. -/
structure HostWorkspaceState.WithinCaps (s : HostWorkspaceState) : Prop where
  count : s.sortedEntries.length ≤ 65536
  size : ∀ e ∈ s.sortedEntries, e.value.length ≤ maxEntryValueBytes

/-- A diff within the caps of its decoder. -/
structure WorkspaceStateDiff.WithinCaps (d : WorkspaceStateDiff) : Prop where
  sets : d.sets.length ≤ 65536
  deletes : d.deletes.length ≤ 65536
  size : ∀ e ∈ d.sets, e.value.length ≤ maxEntryValueBytes

theorem decode_encode_snapshot (h : s.WithinCaps) : decodeSnapshot (encodeSnapshot s) = .ok s := by
  have hread : ReadsRest readSnapshot (toBe 4 (saturatingU32 s.sortedEntries.length).toNat
      ++ (s.sortedEntries.flatMap wireEntry ++ [])) (.fromEntries s.sortedEntries) :=
    Reads.bindRest (reads_readU32 _) (Reads.bindRest (reads_readEntries h.count h.size)
      (readsRest_expectEnd _ _))
  rw [List.append_nil] at hread
  rw [encodeSnapshot_eq, decodeSnapshot, run_of_readsRest hread]
  simp only [Outcome.ok_bind, Outcome.pure_eq, HostWorkspaceState.fromEntries_sortedEntries]

theorem decode_encode_diff (h : d.WithinCaps) : decodeDiff (encodeDiff d) = .ok d := by
  have hread : ReadsRest readDiff (toBe 4 (saturatingU32 d.sets.length).toNat
      ++ (d.sets.flatMap wireEntry ++ (toBe 4 (saturatingU32 d.deletes.length).toNat
        ++ (d.deletes.flatMap keyBytes ++ [])))) d :=
    Reads.bindRest (reads_readU32 _) (Reads.bindRest (reads_readEntries h.sets h.size)
      (Reads.bindRest (reads_readU32 _) (Reads.bindRest (reads_readDeletes h.deletes)
        (readsRest_expectEnd _ _))))
  rw [List.append_nil] at hread
  rw [encodeDiff_eq, decodeDiff, run_of_readsRest hread]
  rfl

/-! ## §3 What the decoders refuse -/

theorem over_cap (h : ¬ n ≤ 65536) : saturatingU32 n > maxEntryCount := by
  rw [gt_iff_lt, UInt32.lt_iff_toNat_lt, saturatingU32]
  have hcap : maxEntryCount.toNat = 65536 := rfl
  split
  case isTrue hfits =>
    rw [UInt32.toNat_ofNat', Nat.mod_eq_of_lt hfits]
    omega
  case isFalse => decide

theorem over_size (h : ¬ n ≤ maxEntryValueBytes) : (saturatingU32 n).toNat > maxEntryValueBytes := by
  rw [saturatingU32]
  split
  case isTrue hfits =>
    rw [UInt32.toNat_ofNat', Nat.mod_eq_of_lt hfits]
    omega
  case isFalse => decide

theorem refuses_readEntry (h : ¬ entry.value.length ≤ maxEntryValueBytes) :
    Refuses readEntry (wireEntry entry) := by
  have hvalue : Refuses (readValue (saturatingU32 entry.value.length).toNat) entry.value := by
    apply refuses_bytesRemaining
    intro left
    rw [if_pos (.inl (over_size h))]
    exact refuses_throw _ _
  exact Reads.bindRefuses (reads_readKey entry.key)
    (Reads.bindRefuses (reads_readU32 _) hvalue.bind)

theorem refuses_readMany (h : ¬ ∀ e ∈ sets, e.value.length ≤ maxEntryValueBytes) :
    Refuses (readMany readEntry sets.length) (sets.flatMap wireEntry) := by
  induction sets with
  | nil => exact absurd (fun e he => absurd he List.not_mem_nil) h
  | cons e sets ih =>
    by_cases hhead : e.value.length ≤ maxEntryValueBytes
    case pos =>
      have htail : ¬ ∀ e ∈ sets, e.value.length ≤ maxEntryValueBytes := by
        simpa [hhead] using h
      exact Reads.bindRefuses (reads_readEntry hhead) (ih htail).bind
    case neg => exact ((refuses_readEntry hhead).append _).bind

theorem refuses_readEntries (h : ¬ (sets.length ≤ 65536 ∧ ∀ e ∈ sets, e.value.length ≤ maxEntryValueBytes)) :
    Refuses (readEntries (saturatingU32 sets.length)) (sets.flatMap wireEntry) := by
  by_cases hcount : sets.length ≤ 65536
  case neg =>
    rw [readEntries, if_pos (over_cap hcount)]
    exact refuses_throw _ _
  case pos =>
    obtain ⟨hcap, hlength⟩ := not_over hcount
    rw [readEntries, if_neg hcap]
    apply refuses_bytesRemaining
    intro left
    dsimp only
    split
    case isTrue => exact refuses_throw _ _
    case isFalse =>
      rw [hlength]
      exact refuses_readMany fun hsize => h ⟨hcount, hsize⟩

theorem refuses_readDeletes (h : ¬ deletes.length ≤ 65536) :
    Refuses (readDeletes (saturatingU32 deletes.length)) (deletes.flatMap keyBytes) := by
  rw [readDeletes, if_pos (over_cap h)]
  exact refuses_throw _ _

theorem run_of_refuses (h : Refuses p bs) :
    ∃ e, p.run bs 0 = .fault e := by
  simpa using h [] []

theorem eq_of_decode_snapshot {t : HostWorkspaceState}
    (h : decodeSnapshot (encodeSnapshot s) = .ok t) : t = s := by
  by_cases hcaps : s.WithinCaps
  case pos =>
    grind [decode_encode_snapshot]
  case neg =>
    have hentries : Refuses (readEntries (saturatingU32 s.sortedEntries.length))
        (s.sortedEntries.flatMap wireEntry) :=
      refuses_readEntries fun hin => hcaps ⟨hin.1, hin.2⟩
    have hread : Refuses readSnapshot (toBe 4 (saturatingU32 s.sortedEntries.length).toNat
        ++ s.sortedEntries.flatMap wireEntry) :=
      Reads.bindRefuses (reads_readU32 _) hentries.bind
    obtain ⟨e, hrun⟩ := run_of_refuses hread
    rw [encodeSnapshot_eq, decodeSnapshot, hrun, Outcome.fault_bind] at h
    contradiction

theorem eq_of_decode_diff {t : WorkspaceStateDiff} (h : decodeDiff (encodeDiff d) = .ok t) : t = d := by
  by_cases hsets : d.sets.length ≤ 65536 ∧ ∀ e ∈ d.sets, e.value.length ≤ maxEntryValueBytes
  case neg =>
    have hread : Refuses readDiff (toBe 4 (saturatingU32 d.sets.length).toNat
        ++ (d.sets.flatMap wireEntry ++ (toBe 4 (saturatingU32 d.deletes.length).toNat
          ++ d.deletes.flatMap keyBytes))) :=
      Reads.bindRefuses (reads_readU32 _) ((refuses_readEntries hsets).append _).bind
    obtain ⟨e, hrun⟩ := run_of_refuses hread
    rw [encodeDiff_eq, decodeDiff, hrun, Outcome.fault_bind] at h
    contradiction
  case pos =>
    by_cases hdeletes : d.deletes.length ≤ 65536
    case pos =>
      rw [decode_encode_diff ⟨hsets.1, hdeletes, hsets.2⟩] at h
      exact (Outcome.ok.inj h).symm
    case neg =>
      have hread : Refuses readDiff (toBe 4 (saturatingU32 d.sets.length).toNat
          ++ (d.sets.flatMap wireEntry ++ (toBe 4 (saturatingU32 d.deletes.length).toNat
            ++ d.deletes.flatMap keyBytes))) :=
        Reads.bindRefuses (reads_readU32 _) (Reads.bindRefuses
          (reads_readEntries hsets.1 hsets.2) (Reads.bindRefuses (reads_readU32 _)
            (refuses_readDeletes hdeletes).bind))
      obtain ⟨e, hrun⟩ := run_of_refuses hread
      rw [encodeDiff_eq, decodeDiff, hrun, Outcome.fault_bind] at h
      contradiction

/-! ## §4 Documents over the wire -/

/-- A diff carries its base to its target: applied once or twice it gives
exactly the target, it touches the keys the two documents differ on and no
others, and within the caps of their decoders a diff and a snapshot come
back from the wire as they were. The bytes are a function of what the
document answers to lookups: they list its entries in the canonical order,
whatever order a listing of it had them in. -/
theorem HostWorkspaceState.diff_correct (base next : HostWorkspaceState) :
    base.applying (next.diffFrom base) = next ∧
    (base.applying (next.diffFrom base)).applying (next.diffFrom base)
      = base.applying (next.diffFrom base) ∧
    (∀ key, key ∈ (next.diffFrom base).touched ↔ base.get key ≠ next.get key) ∧
    ((next.diffFrom base).WithinCaps →
      decodeDiff (encodeDiff (next.diffFrom base)) = .ok (next.diffFrom base)) ∧
    (next.WithinCaps → decodeSnapshot (encodeSnapshot next) = .ok next) ∧
    (∀ other : HostWorkspaceState, (∀ key, other.get key = next.get key) →
      encodeSnapshot other = encodeSnapshot next ∧
      encodeDiff (other.diffFrom base) = encodeDiff (next.diffFrom base)) ∧
    ∀ list : List WorkspaceEntry, (list.map WorkspaceEntry.key).Nodup →
      list.length ≤ maxEntryCount.toNat → .fromEntries list = next →
      encodeSnapshot next = toBe 4 (saturatingU32 list.length).toNat
        ++ (placed list (canonicalOrder (list.map WorkspaceEntry.key))).flatMap wireEntry := by
  refine ⟨apply_diffFrom next base, apply_apply base _, mem_touched_diffFrom next base,
    decode_encode_diff, decode_encode_snapshot, ?_, ?_⟩
  · intro other hsame
    rw [ext_get hsame]
    exact ⟨rfl, rfl⟩
  · rintro list hkeys hcount rfl
    have hlen : list.length ≤ 4294967296 :=
      Nat.le_trans hcount (by decide)
    rw [encodeSnapshot_eq, ← placed_canonicalOrder hkeys hlen, (placed_perm hlen).length_eq]

end SlopDesk.Document

/-
SlopDesk.Wire.ReplayPayloads — how long a payload that a replay sends can
get, against the cap that keeps a frame within half the window.

§1 a rechunk respects the cap exactly when its data fit the numbers at one
cap each. §2 what an ack does to the head of the ring: a carried re-opener,
or the one an eviction calls for, goes in front of it unmeasured. §3 the
exact condition on a run under which every replay respects the cap.
-/
import SlopDesk.Mux.FlowTheorems
import SlopDesk.Wire.CodecTheorems
import SlopDesk.Wire.ReplayBounds

namespace SlopDesk.Wire

open SlopDesk.Base
open SlopDesk.AltScreen
open SlopDesk.Mux

variable {cap : Nat} {ring : List RingEntry}
variable (mux : MuxFlowControl)

/-! ## §1 Rechunking within a cap -/

theorem payloadCap_pos : 0 < payloadCap mux := by
  have hpos := mux.maxOutputFramePayloadBytes_pos
  unfold payloadCap
  omega

theorem le_divCeil_mul (n : Nat) {d : Nat} (h : 0 < d) : n ≤ divCeil n d * d := by
  have hdiv := Nat.div_add_mod (n + d - 1) d
  have hmod := Nat.mod_lt (n + d - 1) h
  have hcomm : d * ((n + d - 1) / d) = (n + d - 1) / d * d := Nat.mul_comm ..
  unfold divCeil
  omega

/-- The numbers offer room for the data at the chunk size, if they do at the
payload cap. -/
theorem chunkSize_spec {dataLen chunks : Nat} (h : 0 < chunks) (hfits : dataLen ≤ payloadCap mux * chunks) :
    chunkSize mux dataLen chunks ≤ payloadCap mux ∧
      dataLen ≤ chunkSize mux dataLen chunks * chunks := by
  have hpos := payloadCap_pos mux
  have hceil := le_divCeil_mul dataLen h
  unfold chunkSize
  refine ⟨by omega, ?_⟩
  by_cases hcap : payloadCap mux ≤ max rechunkFloorBytes (divCeil dataLen chunks)
  case pos =>
    grind
  case neg =>
    refine Nat.le_trans hceil (Nat.mul_le_mul_right chunks ?_)
    omega

/-- With room for the data, no chunk is longer than the chunk size: the last
number is left with one chunk at most. -/
theorem chunkLoop_le {size : Nat} {seqs : List Int} {data : List UInt8}
    (h : data.length ≤ size * seqs.length) :
    ∀ m ∈ chunkLoop size seqs data, m.bytes.length ≤ size := by
  induction seqs generalizing data with
  | nil => simp [chunkLoop]
  | cons seq seqs ih =>
    by_cases hd : data = []
    case pos => simp [hd]
    case neg =>
      cases seqs with
      | nil =>
        cases data with
        | nil => exact absurd rfl hd
        | cons byte data =>
          intro m hm
          rw [List.mem_singleton.mp hm]
          simpa using h
      | cons next seqs =>
        rw [chunkLoop_cons_cons size seq next seqs hd]
        intro m hm
        rcases List.mem_cons.mp hm with rfl | hrest
        · simp only [List.length_take]
          omega
        · grind [List.length_cons, Nat.mul_succ, List.length_drop]

theorem bytes_relabelLast (seq : Int) (ms : List OutputMessage) :
    (relabelLast seq ms).map OutputMessage.bytes = ms.map OutputMessage.bytes := by
  induction ms with
  | nil => rfl
  | cons m ms ih =>
    cases ms with
    | nil => rfl
    | cons next ms =>
      rw [relabelLast_cons_cons, List.map_cons, ih]
      rfl

/-- Every payload is at most `cap` long. -/
def PayloadsWithin (cap : Nat) (ms : List OutputMessage) : Prop :=
  ∀ m ∈ ms, m.bytes.length ≤ cap

theorem PayloadsWithin.of_bytes {ms ms' : List OutputMessage}
    (h : PayloadsWithin cap ms) (heq : ms'.map OutputMessage.bytes = ms.map OutputMessage.bytes) :
    PayloadsWithin cap ms' := by
  intro m hm
  have hmem : m.bytes ∈ ms.map OutputMessage.bytes := by
    rw [← heq]
    exact List.mem_map_of_mem hm
  obtain ⟨m', hm', hbytes⟩ := List.mem_map.mp hmem
  rw [← hbytes]
  exact h m' hm'

theorem PayloadsWithin.length {ms : List OutputMessage} (h : PayloadsWithin cap ms) :
    (messageContent ms).length ≤ cap * ms.length := by
  induction ms with
  | nil => simp
  | cons m ms ih =>
    have hhead := h m (List.mem_cons_self ..)
    have htail := ih fun m' hm' => h m' (List.mem_cons_of_mem m hm')
    rw [messageContent_cons, List.length_append, List.length_cons, Nat.mul_succ]
    omega

/-- A rechunk respects the payload cap exactly when its data fit the
numbers at one cap each. -/
theorem payloadsWithin_rechunk_iff (data : List UInt8) {seqs : List Int} (cover : Bool) (h : seqs ≠ []) :
    PayloadsWithin (payloadCap mux) (rechunk mux data seqs cover)
      ↔ data.length ≤ payloadCap mux * seqs.length := by
  have hpos : 0 < seqs.length := List.length_pos_iff.mpr h
  constructor
  · intro hwithin
    have hlen := hwithin.length
    have hcount := (seqs_rechunk mux data seqs cover).length_le
    rw [messageContent_rechunk mux data cover h] at hlen
    rw [List.length_map] at hcount
    exact Nat.le_trans hlen (Nat.mul_le_mul_left _ hcount)
  · intro hfits
    obtain ⟨hsize, hroom⟩ := chunkSize_spec mux hpos hfits
    have hchunks : PayloadsWithin (payloadCap mux)
        (chunkLoop (chunkSize mux data.length seqs.length) seqs data) := fun m hm =>
      Nat.le_trans (chunkLoop_le hroom m hm) hsize
    unfold rechunk
    cases hlast : seqs.getLast? with
    | none => exact absurd (List.getLast?_eq_none_iff.mp hlast) h
    | some last =>
      dsimp only
      by_cases hd : data = []
      case pos => cases cover <;> simp [hd, PayloadsWithin]
      case neg =>
        rw [if_neg (by simpa using hd)]
        cases cover with
        | true =>
          exact hchunks.of_bytes (bytes_relabelLast last _)
        | false =>
          exact hchunks

/-! ## §2 The head of the ring -/

theorem keptHead_reopened {reopen : Option (List UInt8)} (h : ring ≠ []) :
    keptHead (reopened reopen ring) = reopen.getD [] ++ keptHead ring := by
  cases ring with
  | nil => exact absurd rfl h
  | cons head rest => cases reopen <;> rfl

theorem tail_reopened (reopen : Option (List UInt8)) (ring : List RingEntry) :
    (reopened reopen ring).tail = ring.tail := by
  cases ring <;> cases reopen <;> rfl

theorem tail_survivors (cap : Nat) (ring : List RingEntry) :
    (survivors cap ring).tail.Sublist ring.tail := by
  have hsub := (newestFitting_suffix cap ring).sublist.tail
  unfold survivors
  rcases lineAligned_cases (newestFitting cap ring) with heq | ⟨head, rest, newline, hring, _, heq⟩
  · rwa [heq]
  · rw [hring] at hsub
    rwa [heq]

/-- Every entry of a ring is at most `cap` long. -/
def RingWithin (cap : Nat) (ring : List RingEntry) : Prop := ∀ e ∈ ring, e.bytes.length ≤ cap

theorem ringWithin_iff (h : RingWithin cap ring.tail) :
    RingWithin cap ring ↔ (keptHead ring).length ≤ cap := by
  cases ring with
  | nil => simp [RingWithin, keptHead]
  | cons head rest =>
    constructor
    · intro hring
      exact hring head (List.mem_cons_self ..)
    · intro hhead e he
      rcases List.mem_cons.mp he with rfl | hrest
      · exact hhead
      · exact h e hrest

/-- The head of the ring as a trim to `scrollbackCap` leaves it, with the
re-opener in front, is at most `cap` long. -/
def HeadFits (cap scrollbackCap : Nat) (ring : List RingEntry) : Prop :=
  if (ringContent ring).length ≤ scrollbackCap then (keptHead ring).length ≤ cap
  else survivors scrollbackCap ring ≠ [] →
    ((cutReopener scrollbackCap ring).getD []).length
      + (keptHead (survivors scrollbackCap ring)).length ≤ cap

theorem ringWithin_trimmed_iff {scrollbackCap : Nat} (h : RingWithin cap ring.tail) :
    RingWithin cap (trimmed scrollbackCap ring) ↔ HeadFits cap scrollbackCap ring := by
  unfold trimmed HeadFits
  by_cases hfits : (ringContent ring).length ≤ scrollbackCap
  case pos =>
    rw [if_pos hfits, if_pos hfits]
    exact ringWithin_iff h
  case neg =>
    have htail : RingWithin cap
        (reopened (cutReopener scrollbackCap ring) (survivors scrollbackCap ring)).tail := by
      rw [tail_reopened]
      exact fun e he => h e ((tail_survivors scrollbackCap ring).subset he)
    rw [if_neg hfits, if_neg hfits, ringWithin_iff htail]
    by_cases hnil : survivors scrollbackCap ring = []
    case pos =>
      rw [hnil, reopened_nil]
      exact ⟨fun _ hne => absurd rfl hne, fun _ => Nat.zero_le _⟩
    case neg =>
      grind [keptHead_reopened, List.length_append]

namespace ReplayBuffer

theorem ringWithin_offered {cap : Nat} {b : ReplayBuffer} {released : List TailEntry}
    (hring : RingWithin cap b.scrollbackRing) (hreleased : ∀ e ∈ released, e.bytes.length ≤ cap) :
    RingWithin cap (b.offered released).tail := by
  have hmoved : RingWithin cap
      (b.scrollbackRing ++ released.map fun e => (⟨e.seq, e.bytes⟩ : RingEntry)).tail := by
    intro e he
    rcases List.mem_append.mp (List.mem_of_mem_tail he) with hold | hnew
    · exact hring e hold
    · grind
  unfold offered
  cases b.scrollbackRing.isEmpty with
  | true =>
    rw [if_pos rfl, tail_reopened]
    exact hmoved
  | false => exact hmoved

theorem mem_released {b : ReplayBuffer} {upTo : Int} {e : TailEntry} (h : e ∈ b.released upTo) :
    e ∈ b.entries := by
  unfold released at h
  split at h
  case isTrue => simp at h
  case isFalse => exact (List.takeWhile_sublist _).subset h

end ReplayBuffer

/-! ## §3 Runs -/

theorem mem_numbered {first : Int} {l : List α} {p : Int × α} (h : p ∈ numbered first l) : p.2 ∈ l := by
  induction l generalizing first with
  | nil => simp [numbered] at h
  | cons x xs ih =>
    rcases List.mem_cons.mp h with rfl | hrest
    · exact List.mem_cons_self ..
    · exact List.mem_cons_of_mem x (ih hrest)

/-- An operation of a drain that merges no more than the payload cap. -/
def ReplayOp.Within (cap : Nat) : ReplayOp → Prop
  | .append bytes => bytes.length ≤ cap
  | _ => True

instance (cap : Nat) (op : ReplayOp) : Decidable (op.Within cap) :=
  match op with
  | .append bytes => inferInstanceAs (Decidable (bytes.length ≤ cap))
  | .ack _ | .setClientOnline _ | .setPendingAltReopen _ | .captureFold | .adoptFold _ _ =>
    .isTrue trivial

namespace ReplaySession

open ReplayBuffer

variable {distiller : Option (List UInt8 → List UInt8)} {s : ReplaySession} {mux : MuxFlowControl}

/-- A session whose every payload was within the cap, under one distiller. -/
structure Fed (cap : Nat) (distiller : Option (List UInt8 → List UInt8)) (s : ReplaySession) :
    Prop where
  neverDrops : s.NeverDrops
  appended : ∀ bytes ∈ s.appended, bytes.length ≤ cap
  distiller : s.buffer.scrollbackDistiller = distiller

theorem Fed.tail {cap : Nat} (h : s.Fed cap distiller) : ∀ e ∈ s.buffer.entries, e.bytes.length ≤ cap := by
  intro e he
  have hpair : (e.seq, e.bytes) ∈ pairs s.buffer.entries :=
    List.mem_map_of_mem (f := fun e => (e.seq, e.bytes)) he
  rw [h.neverDrops.tail] at hpair
  exact h.appended e.bytes (List.mem_of_mem_drop (mem_numbered hpair))

theorem fed_step {cap : Nat} (op : ReplayOp)
    (hop : op.Within cap) (h : s.Fed cap distiller) : (step mux s op).Fed cap distiller := by
  refine ⟨neverDrops_step op h.neverDrops, ?_, ?_⟩
  · cases op with
    | append bytes =>
      intro payload hpayload
      rcases List.mem_append.mp hpayload with hold | hnew
      · exact h.appended payload hold
      · rw [List.mem_singleton.mp hnew]
        exact hop
    | adoptFold index rendered =>
      rcases adoptFold_cases mux s index rendered with ⟨_, heq⟩ | ⟨source, _, heq⟩
      · rw [heq]; exact h.appended
      · rw [heq]; exact h.appended
    | ack | setClientOnline | setPendingAltReopen | captureFold => exact h.appended
  · cases op with
    | ack upTo =>
      rcases ack_cases h.neverDrops.scrollbackBytes upTo with ⟨_, heq⟩ | ⟨_, hreleases⟩
      · show (s.buffer.ack upTo).scrollbackDistiller = distiller
        rw [heq]; exact h.distiller
      · exact hreleases.scrollbackDistiller.trans h.distiller
    | adoptFold index rendered =>
      rcases adoptFold_cases mux s index rendered with ⟨_, heq⟩ | ⟨source, _, heq⟩
      · rw [heq]; exact h.distiller
      · rw [heq]
        exact (ringOnly_adoptFolded mux s.buffer rendered source).scrollbackDistiller.trans
          h.distiller
    | append | setClientOnline | setPendingAltReopen | captureFold => exact h.distiller

/-- An ack leaves a head within the payload cap, and an adopted fold fits its
numbers at one cap each. -/
def KeepsPayloads (mux : MuxFlowControl) (s : ReplaySession) : ReplayOp → Prop
  | .ack upTo => s.buffer.scrollbackBytesCap ≠ 0 → s.buffer.released upTo ≠ [] →
      HeadFits (payloadCap mux) s.buffer.scrollbackBytesCap
        (s.buffer.offered (s.buffer.released upTo))
  | .adoptFold index rendered => ∀ source, s.captured[index]? = some source →
      source.generation = s.buffer.ringGeneration →
      rendered.length ≤ payloadCap mux * source.seqs.length
  | _ => True

theorem ringWithin_messages (cap : Nat) (ms : List OutputMessage) :
    RingWithin cap (ms.map fun m => ⟨m.seq, m.bytes⟩) ↔ PayloadsWithin cap ms := by
  simp [RingWithin, PayloadsWithin]

theorem ringWithin_step (mux : MuxFlowControl) (op : ReplayOp) (h : s.Fed (payloadCap mux) distiller)
    (hring : RingWithin (payloadCap mux) s.buffer.scrollbackRing) :
    RingWithin (payloadCap mux) (step mux s op).buffer.scrollbackRing
      ↔ s.KeepsPayloads mux op := by
  cases op with
  | ack upTo =>
    have hlengths : ∀ e ∈ s.buffer.released upTo, e.bytes.length ≤ payloadCap mux := by
      intro e he
      exact h.tail e (mem_released he)
    exact ack_ring_iff h.neverDrops.scrollbackBytes upTo (P := RingWithin (payloadCap mux)) hring
      (ringWithin_trimmed_iff (ringWithin_offered hring hlengths))
  | adoptFold index rendered =>
    refine adoptFold_ring_iff mux s index rendered (P := RingWithin (payloadCap mux)) hring ?_
    intro source hsource
    have hseqs := h.neverDrops.captured source hsource
    rw [ringWithin_messages, payloadsWithin_rechunk_iff mux rendered true hseqs]
  | append | setClientOnline | setPendingAltReopen | captureFold =>
    exact ⟨fun _ => trivial, fun _ => hring⟩

/-- Whatever the cursor, every payload of a replay is within the cap. -/
def SendsWithin (mux : MuxFlowControl) (s : ReplaySession) : Prop :=
  ∀ cursor, PayloadsWithin (payloadCap mux) (s.buffer.replay mux cursor)

/-- Whatever the cursor, what the distiller makes of the bytes of a replay
fits their numbers at one cap each. -/
def DistilledFits (mux : MuxFlowControl) (distiller : List UInt8 → List UInt8)
    (s : ReplaySession) : Prop :=
  ∀ cursor, let above := s.buffer.scrollbackRing.filter fun e => e.seq > cursor
    if cursor = 0 ∧ s.buffer.entries ≠ [] then
      (distiller (ringContent above ++ tailContent s.buffer.entries)).length
        ≤ payloadCap mux * (above.length + s.buffer.entries.length)
    else above ≠ [] →
      (distiller (ringContent above)).length ≤ payloadCap mux * above.length

theorem payloadsWithin_append {cap : Nat} {ms ms' : List OutputMessage} :
    PayloadsWithin cap (ms ++ ms') ↔ PayloadsWithin cap ms ∧ PayloadsWithin cap ms' := by
  simp only [PayloadsWithin, List.mem_append]
  constructor
  · grind
  · grind

theorem payloadsWithin_rawTail {cap : Nat} {b : ReplayBuffer}
    (h : ∀ e ∈ b.entries, e.bytes.length ≤ cap) (cursor : Int) : PayloadsWithin cap (b.rawTail cursor) := by
  intro m hm
  obtain ⟨e, he, rfl⟩ := List.mem_map.mp hm
  exact h e (List.mem_filter.mp he).1

theorem sendsWithin_raw (h : s.Fed (payloadCap mux) none) :
    s.SendsWithin mux ↔ RingWithin (payloadCap mux) s.buffer.scrollbackRing := by
  have hreplay : ∀ cursor, s.buffer.replay mux cursor
      = ((s.buffer.scrollbackRing.filter fun e => e.seq > cursor).map fun e => ⟨e.seq, e.bytes⟩)
        ++ s.buffer.rawTail cursor := by
    intro cursor
    unfold replay
    rw [h.distiller]
    rfl
  constructor
  · intro hsends e he
    -- a cursor just below the entry makes a replay send it
    have hsent := hsends (e.seq - 1)
    rw [hreplay, payloadsWithin_append] at hsent
    refine hsent.1 ⟨e.seq, e.bytes⟩ (List.mem_map_of_mem (List.mem_filter.mpr ⟨he, ?_⟩))
    simp only [decide_eq_true_eq]
    omega
  · intro hring cursor
    rw [hreplay, payloadsWithin_append]
    refine ⟨?_, payloadsWithin_rawTail h.tail cursor⟩
    intro m hm
    obtain ⟨e, he, rfl⟩ := List.mem_map.mp hm
    exact hring e (List.mem_filter.mp he).1

theorem sendsWithin_distilled {distiller : List UInt8 → List UInt8}
    (h : s.Fed (payloadCap mux) (some distiller)) : s.SendsWithin mux ↔ s.DistilledFits mux distiller := by
  apply forall_congr'
  intro cursor
  unfold replay
  rw [h.distiller]
  dsimp only
  by_cases hcold : cursor = 0 ∧ s.buffer.entries ≠ []
  case pos =>
    rw [if_pos hcold, if_pos hcold, payloadsWithin_rechunk_iff _ _ _ (by simp [hcold.2])]
    simp only [List.length_append, List.length_map]
  case neg =>
    rw [if_neg hcold, if_neg hcold]
    cases habove : s.buffer.scrollbackRing.filter fun e => e.seq > cursor with
    | nil =>
      exact ⟨fun _ hne => absurd rfl hne, fun _ => payloadsWithin_rawTail h.tail cursor⟩
    | cons head rest =>
      rw [if_neg (by simp), payloadsWithin_append,
        payloadsWithin_rechunk_iff _ _ _ (by simp), List.length_map]
      exact ⟨fun hsent _ => hsent.1,
        fun hfits => ⟨hfits (by simp), payloadsWithin_rawTail h.tail cursor⟩⟩

theorem fed_start (cap maxBackup offlineGate scrollback : Nat)
    (distiller : Option (List UInt8 → List UInt8)) :
    (start { withCaps maxBackup offlineGate scrollback with
      scrollbackDistiller := distiller }).Fed cap distiller :=
  ⟨neverDrops_start maxBackup offlineGate scrollback distiller, by simp [start], rfl⟩

theorem length_encode_toWire (m : OutputMessage) : (encode m.toWire).length = 13 + m.bytes.length := by
  rw [encode_eq, length_frameBytes]
  simp only [OutputMessage.toWire, WireMessage.opaqueRun, bodyBytes, length_toBe, List.length_append]
  omega

/-- A frame within the cap is within half a window, and a full window admits
it. -/
theorem admitted_of_within (mux : MuxFlowControl) {m : OutputMessage}
    (h : m.bytes.length ≤ payloadCap mux) : ((encode m.toWire).length : Int) ≤ half mux.initialWindowBytes ∧
    ∃ left policy, (FlowCreditPolicy.new mux.initialWindowBytes).consume (encode m.toWire).length
      = (.allowed left, policy) := by
  have hcap := mux.output_frame_le_half
  have hhalf := two_half_le mux.initialWindowBytes
  have hpos := mux.maxOutputFramePayloadBytes_pos
  have hframe : ((encode m.toWire).length : Int) ≤ half mux.initialWindowBytes := by
    rw [length_encode_toWire]
    unfold payloadCap at h
    omega
  have hwindow : (FlowCreditPolicy.new mux.initialWindowBytes).remaining = mux.initialWindowBytes :=
    clampNonneg_of_nonneg (by omega)
  have hcredit : ((encode m.toWire).length : Int)
      ≤ (FlowCreditPolicy.new mux.initialWindowBytes).remaining := by omega
  obtain ⟨policy, hconsume, _⟩ := FlowCreditPolicy.consume_of_le _ hcredit
  exact ⟨hframe, _, policy, hconsume⟩

/-- From a fresh buffer fed within the payload cap: every replay respects the
cap throughout exactly when, without a distiller, every ack leaves a head
within it and every adopted fold fits its numbers, and with one, whatever
it returns does. A snapshot respects it exactly when it fits its numbers.
What respects it is admitted by a full window. -/
theorem replay_payloads_iff (mux : MuxFlowControl) (maxBackup offlineGate scrollback : Nat)
    (distiller : Option (List UInt8 → List UInt8)) (ops : List ReplayOp)
    (hops : ∀ op ∈ ops, op.Within (payloadCap mux)) :
    let fresh := start { withCaps maxBackup offlineGate scrollback with
      scrollbackDistiller := distiller }
    (Throughout (step mux) (SendsWithin mux) fresh ops ↔
      match distiller with
      | none => Meets (step mux) (KeepsPayloads mux) fresh ops
      | some distiller => Throughout (step mux) (DistilledFits mux distiller) fresh ops) ∧
    (∀ (b : ReplayBuffer) cursor rendered,
      let seqs := (b.snapshotSource cursor).replaySeqs
      PayloadsWithin (payloadCap mux) (rechunkSnapshot mux rendered seqs)
        ↔ seqs = [] ∨ rendered.length ≤ payloadCap mux * seqs.length) ∧
    (∀ m : OutputMessage, m.bytes.length ≤ payloadCap mux →
      ((encode m.toWire).length : Int) ≤ half mux.initialWindowBytes ∧
      ∃ left policy, (FlowCreditPolicy.new mux.initialWindowBytes).consume (encode m.toWire).length
        = (.allowed left, policy)) := by
  intro fresh
  have hfresh : fresh.Fed (payloadCap mux) distiller :=
    fed_start (payloadCap mux) maxBackup offlineGate scrollback distiller
  have hinv : ∀ s op, ReplayOp.Within (payloadCap mux) op → Fed (payloadCap mux) distiller s →
      (step mux s op).Fed (payloadCap mux) distiller := fun _ op => fed_step op
  refine ⟨?_, ?_, fun m => admitted_of_within mux⟩
  · cases distiller with
    | none =>
      have hempty : RingWithin (payloadCap mux) fresh.buffer.scrollbackRing := by
        simp [fresh, start, withCaps, RingWithin]
      have hraw : ∀ s, Fed (payloadCap mux) none s →
          (s.SendsWithin mux ↔ RingWithin (payloadCap mux) s.buffer.scrollbackRing) :=
        fun _ => sendsWithin_raw
      have hstep : ∀ s op, ReplayOp.Within (payloadCap mux) op → Fed (payloadCap mux) none s →
          RingWithin (payloadCap mux) s.buffer.scrollbackRing →
          (RingWithin (payloadCap mux) (step mux s op).buffer.scrollbackRing
            ↔ s.KeepsPayloads mux op) := fun _ op _ => ringWithin_step mux op
      exact (throughout_congr hinv hraw hfresh hops).trans
        (throughout_iff_meets hinv hstep hfresh hempty hops)
    | some distiller =>
      have hdistilled : ∀ s, Fed (payloadCap mux) (some distiller) s →
          (s.SendsWithin mux ↔ s.DistilledFits mux distiller) := fun _ => sendsWithin_distilled
      exact throughout_congr hinv hdistilled hfresh hops
  · intro b cursor rendered seqs
    by_cases hnil : seqs = []
    case pos =>
      simp [hnil, rechunkSnapshot, rechunk, PayloadsWithin]
    case neg =>
      grind [rechunkSnapshot, payloadsWithin_rechunk_iff]

theorem replay_payloads_small :
    Throughout (step ⟨none, none⟩) (SendsWithin ⟨none, none⟩) (start (withCaps 100 100 12))
      [.append [0x61], .ack 1] :=
  (replay_payloads_iff ⟨none, none⟩ 100 100 12 none [.append [0x61], .ack 1] (by decide)).1.mpr
    ⟨trivial, fun _ _ => by unfold HeadFits; decide, trivial⟩

/-- A window of 16 KiB and a merge cap of 4 KiB: an opener and then a full
payload, both acked, under a ring cap of 4 KiB. The eviction keeps the
payload and puts the opener in front of it. -/
theorem replay_payload_over_cap :
    let mux : MuxFlowControl := ⟨some (16 * 1024), some (4 * 1024)⟩
    let opener : List UInt8 := [0x1B, 0x5B, 0x3F, 0x31, 0x30, 0x34, 0x39, 0x68]
    let ops : List ReplayOp :=
      [.append opener, .append (List.replicate 4096 0x61), .ack 1, .ack 2]
    (∀ op ∈ ops, op.Within (payloadCap mux)) ∧
      ¬ (run (step mux) (start (withCaps 65536 65536 4096)) ops).SendsWithin mux := by
  refine ⟨by decide +kernel, ?_⟩
  intro h
  have hsent : PayloadsWithin _ _ := h 0
  revert hsent
  unfold PayloadsWithin
  decide +kernel

end ReplaySession

end SlopDesk.Wire

/-
SlopDesk.Wire.BytesTheorems — the rules the codec proofs are written in.

§1 `clampUtf8` cuts at the longest valid prefix that fits. §2 `Writes p
bs`: the writes of `p` amount to appending `bs`, on a growing buffer, on
a lent one with room, and for the count on a lent one without. §3 one
`Reads` lemma per reader: it inverts the matching writer wherever the
bytes sit. §4 no reader leaves the input or panics inside it.
-/
import SlopDesk.Wire.Bytes

namespace SlopDesk.Wire

open SlopDesk.Base
open SlopDesk.Base.Parser

variable {bs : List UInt8} {p : Put} {f : Nat → Decoder α}

/-! ## §1 Clamping -/

@[simp] theorem length_utf8Bytes (s : String) : (utf8Bytes s).length = s.utf8ByteSize := by
  rfl

theorem utf8Bytes_inj {s t : String} : utf8Bytes s = utf8Bytes t ↔ s = t := by
  rw [utf8Bytes, utf8Bytes, Array.toList_inj, ← String.toByteArray_inj, ByteArray.ext_iff]

/-- `c` is a prefix of `s` of at most `maxBytes` bytes, and no longer valid
UTF-8 prefix of `s` fits. -/
structure LongestUtf8Prefix (maxBytes : Nat) (s c : String) : Prop where
  isPrefix : utf8Bytes c <+: utf8Bytes s
  fits : c.utf8ByteSize ≤ maxBytes
  longest : ∀ p : String, utf8Bytes p <+: utf8Bytes s → p.utf8ByteSize ≤ maxBytes →
    p.utf8ByteSize ≤ c.utf8ByteSize

/-- The byte length of a run of characters. -/
def charBytes (cs : List Char) : Nat := (cs.map Char.utf8Size).sum

theorem utf8ByteSize_ofList (cs : List Char) : (String.ofList cs).utf8ByteSize = charBytes cs := by
  induction cs with
  | nil => rfl
  | cons c cs ih =>
    simp [String.ofList_append, String.utf8ByteSize_append, ih, charBytes]

theorem charBytes_append (a b : List Char) : charBytes (a ++ b) = charBytes a + charBytes b := by
  simp [charBytes]

theorem clampChars_isPrefix (maxBytes index : Nat) (cs : List Char) :
    clampChars maxBytes index cs <+: cs := by
  induction cs generalizing index with
  | nil => simp [clampChars]
  | cons c cs ih =>
    grind [clampChars]

theorem clampChars_fits (maxBytes index : Nat) (cs : List Char) (h : index ≤ maxBytes) :
    index + charBytes (clampChars maxBytes index cs) ≤ maxBytes := by
  induction cs generalizing index with
  | nil => simpa [clampChars, charBytes] using h
  | cons c cs ih =>
    grind [clampChars, charBytes, List.map_cons, List.sum_cons]

theorem clampChars_longest (maxBytes index : Nat) (cs p : List Char) (hp : p <+: cs)
    (hfit : index + charBytes p ≤ maxBytes) : p <+: clampChars maxBytes index cs := by
  induction p generalizing index cs with
  | nil => exact List.nil_prefix
  | cons c p ih =>
    obtain ⟨t, rfl⟩ := hp
    simp only [charBytes, List.map_cons, List.sum_cons] at hfit
    rw [List.cons_append, clampChars]
    rw [if_neg (by omega)]
    exact (List.cons_prefix_cons).mpr
      ⟨rfl, ih (index + c.utf8Size) _ (List.prefix_append _ _)
        (by simp only [charBytes]; omega)⟩

theorem utf8Bytes_isPrefix {s t : String} : utf8Bytes s <+: utf8Bytes t ↔ s.toList <+: t.toList := by
  constructor
  · rintro ⟨b, hb⟩
    refine List.isPrefix_of_utf8Encode_append_eq_utf8Encode ⟨b.toArray⟩ ?_
    apply ByteArray.ext
    rw [← Array.toList_inj]
    simpa [utf8Bytes] using hb
  · rintro ⟨cs, hcs⟩
    have h : t = s ++ String.ofList cs := by
      rw [← String.toList_inj, String.toList_append, String.toList_ofList, hcs]
    subst h
    simp [utf8Bytes, String.toByteArray_append]

theorem clampUtf8_longest (s : String) (maxBytes : Nat) :
    LongestUtf8Prefix maxBytes s (clampUtf8 s maxBytes) := by
  unfold clampUtf8
  split
  case isTrue h =>
    refine ⟨List.prefix_refl _, h, ?_⟩
    intro p hp _
    simpa using hp.length_le
  case isFalse =>
    refine ⟨?_, ?_, ?_⟩
    · rw [utf8Bytes_isPrefix, String.toList_ofList]
      exact clampChars_isPrefix _ _ _
    · have := clampChars_fits maxBytes 0 s.toList (Nat.zero_le _)
      rw [utf8ByteSize_ofList]
      omega
    · intro p hp hfit
      have hsize : p.utf8ByteSize = charBytes p.toList := by
        rw [← utf8ByteSize_ofList, String.ofList_toList]
      have hpre := clampChars_longest maxBytes 0 s.toList p.toList (utf8Bytes_isPrefix.mp hp)
        (by omega)
      obtain ⟨t, ht⟩ := hpre
      rw [utf8ByteSize_ofList, ← ht, charBytes_append, hsize]
      omega

theorem clampU16Field_size (s : String) : (clampU16Field s).utf8ByteSize ≤ 65535 :=
  (clampUtf8_longest s maxLengthPrefixedBytes).fits

/-! ## §2 Writing -/

@[simp] theorem length_overwrite {buf bytes : List UInt8} {start : Nat}
    (h : start + bytes.length ≤ buf.length) : (overwrite buf start bytes).length = buf.length := by
  simp only [overwrite, List.length_append, List.length_take, List.length_drop]
  omega

theorem overwrite_overwrite {buf as : List UInt8} {start : Nat} (h : start + (as ++ bs).length ≤ buf.length) :
    overwrite (overwrite buf start as) (start + as.length) bs = overwrite buf start (as ++ bs) := by
  have hlen : (buf.take start ++ as).length = start + as.length := by simp; omega
  have htake : (overwrite buf start as).take (start + as.length) = buf.take start ++ as := by
    rw [overwrite, ← List.append_assoc, ← hlen]
    exact List.take_left
  have hdrop : (overwrite buf start as).drop (start + as.length + bs.length)
      = buf.drop (start + (as ++ bs).length) := by
    rw [overwrite, ← List.append_assoc, ← List.drop_drop, ← hlen, List.drop_left, hlen,
      List.drop_drop, List.length_append]
    congr 1
    omega
  rw [overwrite, htake, hdrop, overwrite, List.append_assoc, List.append_assoc]

/-- The writes of `p` amount to appending `bs`: to a growing buffer, to a
lent one with room for them, and as a count to any lent one. -/
structure Writes (p : Put) (bs : List UInt8) : Prop where
  owned : ∀ buf, (p.run ⟨.owned buf⟩).2 = ⟨.owned (buf ++ bs)⟩
  lent : ∀ buf len, len + bs.length ≤ buf.length →
    (p.run ⟨.borrowed buf len⟩).2 = ⟨.borrowed (overwrite buf len bs) (len + bs.length)⟩
  counted : ∀ buf len, ((p.run ⟨.borrowed buf len⟩).2).len = len + bs.length
  stays : ∀ buf len, ∃ buf' len', (p.run ⟨.borrowed buf len⟩).2 = ⟨.borrowed buf' len'⟩

theorem writes_putBytes (bs : List UInt8) : Writes (putBytes bs) bs where
  owned _ := rfl
  lent buf len h := by
    show ByteWriter.putSlice ⟨.borrowed buf len⟩ bs = _
    simp [ByteWriter.putSlice, h]
  counted _ _ := rfl
  stays _ _ := ⟨_, _, rfl⟩

theorem writes_nil : Writes (pure ()) [] where
  owned buf := by rw [List.append_nil]; rfl
  lent buf len h := by
    show (⟨.borrowed buf len⟩ : ByteWriter) = _
    simp [overwrite]
  counted _ _ := rfl
  stays _ _ := ⟨_, _, rfl⟩

theorem Writes.seq {q : Put} {as : List UInt8} (hp : Writes p as) (hq : Writes q bs) :
    Writes (do p; q) (as ++ bs) where
  owned buf := by
    show (q.run (p.run _).2).2 = _
    rw [hp.owned, hq.owned, List.append_assoc]
  lent buf len h := by
    have h' := h
    simp only [List.length_append] at h'
    show (q.run (p.run _).2).2 = _
    rw [hp.lent buf len (by omega), hq.lent _ _ (by rw [length_overwrite (by omega)]; omega),
      overwrite_overwrite h, List.length_append, Nat.add_assoc]
  counted buf len := by
    obtain ⟨buf', len', hrun⟩ := hp.stays buf len
    have hlen : len' = len + as.length := by simpa [hrun, ByteWriter.len] using hp.counted buf len
    show ((q.run (p.run _).2).2).len = _
    rw [hrun, hq.counted, hlen, List.length_append, Nat.add_assoc]
  stays buf len := by
    obtain ⟨buf', len', hrun⟩ := hp.stays buf len
    show ∃ b l, (q.run (p.run _).2).2 = ⟨.borrowed b l⟩
    rw [hrun]
    exact hq.stays buf' len'

theorem writes_putU8 (v : UInt8) : Writes (putU8 v) [v] := writes_putBytes _
theorem writes_putBool (v : Bool) : Writes (putBool v) [if v then 1 else 0] := writes_putBytes _
theorem writes_putU16 (v : UInt16) : Writes (putU16 v) (toBe 2 v.toNat) := writes_putBytes _
theorem writes_putU32 (v : UInt32) : Writes (putU32 v) (toBe 4 v.toNat) := writes_putBytes _
theorem writes_putU64 (v : UInt64) : Writes (putU64 v) (toBe 8 v.toNat) := writes_putBytes _
theorem writes_putI32 (v : Int32) : Writes (putI32 v) (toBe 4 v.toUInt32.toNat) :=
  writes_putBytes _
theorem writes_putI64 (v : Int64) : Writes (putI64 v) (toBe 8 v.toUInt64.toNat) :=
  writes_putBytes _

/-- The bytes of a length-prefixed string: the clamped length, then the
clamped UTF-8. -/
def strField (s : String) : List UInt8 :=
  toBe 2 (clampU16Field s).utf8ByteSize ++ utf8Bytes (clampU16Field s)

@[simp] theorem length_strField (s : String) :
    (strField s).length = 2 + (clampU16Field s).utf8ByteSize := by
  simp [strField]

theorem writes_putLengthPrefixedStr (s : String) : Writes (putLengthPrefixedStr s) (strField s) := by
  have hsize := clampU16Field_size s
  have hlen : (if (utf8Bytes (clampU16Field s)).length ≤ 65535
      then UInt16.ofNat (utf8Bytes (clampU16Field s)).length else 65535).toNat
      = (clampU16Field s).utf8ByteSize := by
    rw [length_utf8Bytes, if_pos hsize, UInt16.toNat_ofNat']
    exact Nat.mod_eq_of_lt (by omega)
  have h := (writes_putU16 (if (utf8Bytes (clampU16Field s)).length ≤ 65535
      then UInt16.ofNat (utf8Bytes (clampU16Field s)).length else 65535)).seq
    (writes_putBytes (utf8Bytes (clampU16Field s)))
  rw [hlen] at h
  exact h

theorem overwrite_zero (buf bytes : List UInt8) :
    overwrite buf 0 bytes = bytes ++ buf.drop bytes.length := by
  simp [overwrite]

theorem overwrite_placeholder (rest : List UInt8) (n value : Nat) :
    overwrite (toBe 4 n ++ rest) 0 (toBe 4 value) = toBe 4 value ++ rest := by
  have h : (toBe 4 value).length = (toBe 4 n).length := by simp
  rw [overwrite_zero, h, List.drop_left]

/-- Writes behind a length placeholder, patched once they are counted. -/
def patched (p : Put) (value : Nat → UInt32) : Put := do
  putU32 0
  p
  modify fun w => w.patchU32 0 (value (w.len - 4))

/-- The frame: the patched prefix, then what was written behind it. -/
def framed (bs : List UInt8) (value : Nat → UInt32) : List UInt8 :=
  toBe 4 (value bs.length).toNat ++ bs

@[simp] theorem length_framed (bs : List UInt8) (value : Nat → UInt32) :
    (framed bs value).length = 4 + bs.length := by
  simp [framed]

theorem patched_run (p : Put) (value : Nat → UInt32) (w : ByteWriter) : ((patched p value).run w).2 =
      let w' := ((do putU32 0; p : Put).run w).2
      w'.patchU32 0 (value (w'.len - 4)) := rfl

theorem Writes.patched_owned (hp : Writes p bs)
    (value : Nat → UInt32) : ((patched p value).run .new).2 = ⟨.owned (framed bs value)⟩ := by
  have hw := ((writes_putU32 0).seq hp).owned []
  rw [patched_run]
  simp only [ByteWriter.new, hw, List.nil_append, ByteWriter.patchU32, ByteWriter.len]
  rw [if_pos (by simp only [List.length_append, length_toBe]; omega)]
  simp only [UInt32.toNat_zero, overwrite_placeholder, List.length_append, length_toBe,
    Nat.add_sub_cancel_left, framed]

theorem Writes.patched_lent (hp : Writes p bs)
    (value : Nat → UInt32) {out : List UInt8} (h : (framed bs value).length ≤ out.length) :
    ((patched p value).run (.borrowing out)).2 =
      ⟨.borrowed (framed bs value ++ out.drop (framed bs value).length)
        (framed bs value).length⟩ := by
  have hlen : (toBe 4 (0 : UInt32).toNat ++ bs).length = (framed bs value).length := by simp
  have hw := ((writes_putU32 0).seq hp).lent out 0 (by omega)
  simp only [Nat.zero_add, hlen, overwrite_zero] at hw
  rw [patched_run]
  simp only [ByteWriter.borrowing, hw, ByteWriter.patchU32, ByteWriter.len]
  rw [if_pos (by simp), List.append_assoc, UInt32.toNat_zero, overwrite_placeholder]
  simp only [length_framed, Nat.add_sub_cancel_left]
  simp only [framed, List.append_assoc]

theorem Writes.patched_counted (hp : Writes p bs) (value : Nat → UInt32) (out : List UInt8) :
    ((patched p value).run (.borrowing out)).2.len = (framed bs value).length := by
  obtain ⟨buf, len, hrun⟩ := ((writes_putU32 0).seq hp).stays out 0
  have hcount := ((writes_putU32 0).seq hp).counted out 0
  rw [patched_run]
  rw [hrun] at hcount
  simp only [ByteWriter.borrowing, hrun, ByteWriter.patchU32]
  simpa [ByteWriter.len] using hcount

/-! ## §3 Reading back -/

theorem reads_nextByte (b : UInt8) : Reads nextByte [b] b := by
  intro pre post
  exact ⟨b, rfl, by simp [nextByte]⟩

theorem reads_readBe (bs : List UInt8) (value : Nat) :
    Reads (readBe bs.length value) bs (ofBe value bs) := by
  induction bs generalizing value with
  | nil => exact reads_pure rfl
  | cons b bs ih => exact Reads.bind (reads_nextByte b) (ih (shiftIn value b))

theorem reads_readBe_toBe {w n : Nat} (h : n < 256 ^ w) : Reads (readBe w 0) (toBe w n) n := by
  have hr := reads_readBe (toBe w n) 0
  rwa [length_toBe, ofBe_toBe h] at hr

theorem reads_readU8 (v : UInt8) : Reads readU8 [v] v := reads_nextByte v

theorem reads_readBool (v : Bool) : Reads readBool [if v then 1 else 0] v := by
  refine (reads_nextByte (if v then 1 else 0)).map ?_
  rintro _ rfl
  cases v <;> rfl

theorem reads_readU16 (v : UInt16) : Reads readU16 (toBe 2 v.toNat) v := by
  refine (reads_readBe_toBe (w := 2) v.toNat_lt).map ?_
  rintro _ rfl
  exact UInt16.ofNat_toNat

theorem reads_readU32 (v : UInt32) : Reads readU32 (toBe 4 v.toNat) v := by
  refine (reads_readBe_toBe (w := 4) v.toNat_lt).map ?_
  rintro _ rfl
  exact UInt32.ofNat_toNat

theorem reads_readU64 (v : UInt64) : Reads readU64 (toBe 8 v.toNat) v := by
  refine (reads_readBe_toBe (w := 8) v.toNat_lt).map ?_
  rintro _ rfl
  exact UInt64.ofNat_toNat

theorem reads_readI32 (v : Int32) : Reads readI32 (toBe 4 v.toUInt32.toNat) v := by
  refine (reads_readU32 v.toUInt32).map ?_
  rintro _ rfl
  exact Int32.toInt32_toUInt32 v

theorem reads_readI64 (v : Int64) : Reads readI64 (toBe 8 v.toUInt64.toNat) v := by
  refine (reads_readU64 v.toUInt64).map ?_
  rintro _ rfl
  exact Int64.toInt64_toUInt64 v

theorem reads_readBytes (bs : List UInt8) : Reads (readBytes bs.length) bs bs := by
  intro pre post
  exact ⟨bs, rfl, by simp [readBytes]⟩

theorem utf8_utf8Bytes (s field : String) : utf8 (utf8Bytes s) field = pure s := by
  have h : String.fromUTF8? ⟨(utf8Bytes s).toArray⟩ = some s := by
    exact dif_pos s.isValidUTF8
  rw [utf8, h]

theorem reads_utf8 (s field : String) : Reads (utf8 (utf8Bytes s) field) [] s := by
  rw [utf8_utf8Bytes]
  exact reads_pure rfl

theorem reads_readLengthPrefixedStr (s field : String) :
    Reads (readLengthPrefixedStr field) (strField s) (clampU16Field s) := by
  have hnat : (UInt16.ofNat (clampU16Field s).utf8ByteSize).toNat
      = (clampU16Field s).utf8ByteSize := by
    have hsize := clampU16Field_size s
    exact Nat.mod_eq_of_lt (by omega)
  have hlen := reads_readU16 (UInt16.ofNat (clampU16Field s).utf8ByteSize)
  have hbytes := reads_readBytes (utf8Bytes (clampU16Field s))
  rw [hnat] at hlen
  rw [length_utf8Bytes, ← hnat] at hbytes
  have hstr : Reads (readBytes (UInt16.ofNat (clampU16Field s).utf8ByteSize).toNat >>=
      fun bytes => utf8 bytes field) (utf8Bytes (clampU16Field s) ++ []) (clampU16Field s) :=
    Reads.bind hbytes (reads_utf8 (clampU16Field s) field)
  rw [List.append_nil] at hstr
  exact Reads.bind hlen hstr

theorem reads_remaining (bs : List UInt8) : ReadsRest remaining bs bs := by
  intro pre
  exact ⟨bs, rfl, by simp [remaining]⟩

theorem reads_remainingStr (s field : String) : ReadsRest (remainingStr field) (utf8Bytes s) s := by
  intro pre
  obtain ⟨_, rfl, h⟩ := reads_remaining (utf8Bytes s) pre
  exact ⟨s, rfl, by simp only [remainingStr, run_bind, h, Outcome.ok_bind, utf8_utf8Bytes,
    run_pure]⟩

theorem readsRestTo_bytesRemaining {Q : α → Prop}
    (h : ReadsRestTo (f bs.length) bs Q) : ReadsRestTo (bytesRemaining >>= f) bs Q := by
  intro pre
  obtain ⟨a, ha, hrun⟩ := h pre
  refine ⟨a, ha, ?_⟩
  have hleft : bytesRemaining.run (pre ++ bs) pre.length = .ok (bs.length, pre.length) := by
    simp [bytesRemaining]
  rw [run_bind, hleft]
  exact hrun

theorem readsTo_bytesRemaining {Q : α → Prop}
    (h : ∀ left, bs.length ≤ left → ReadsTo (f left) bs Q) : ReadsTo (bytesRemaining >>= f) bs Q := by
  intro pre post
  obtain ⟨a, ha, hrun⟩ := h (bs ++ post).length (by simp) pre post
  refine ⟨a, ha, ?_⟩
  have hleft : bytesRemaining.run (pre ++ (bs ++ post)) pre.length
      = .ok ((bs ++ post).length, pre.length) := by
    simp [bytesRemaining]
  rw [run_bind, hleft]
  exact hrun

theorem refuses_bytesRemaining (h : ∀ left, Refuses (f left) bs) : Refuses (bytesRemaining >>= f) bs := by
  intro pre post
  obtain ⟨e, hrun⟩ := h (bs ++ post).length pre post
  have hleft : bytesRemaining.run (pre ++ (bs ++ post)) pre.length
      = .ok ((bs ++ post).length, pre.length) := by
    simp [bytesRemaining]
  refine ⟨e, ?_⟩
  rw [run_bind, hleft]
  exact hrun

/-! ## §4 Safety of the readers -/

theorem safe_nextByte : Safe nextByte := by
  intro data off hoff
  rcases hget : data[off]? with _ | b
  · simp [nextByte, hget]
  · have hlt : off < data.length := (List.getElem?_eq_some_iff.mp hget).1
    simpa [nextByte, hget] using Nat.succ_le_of_lt hlt

theorem safe_readBe (count value : Nat) : Safe (readBe count value) := by
  induction count generalizing value with
  | zero => exact safe_pure value
  | succ count ih => exact safe_nextByte.bind fun b => ih (shiftIn value b)

theorem safe_readU8 : Safe readU8 := safe_nextByte
theorem safe_readBool : Safe readBool := safe_nextByte.bind fun _ => safe_pure _
theorem safe_readU16 : Safe readU16 := (safe_readBe 2 0).bind fun _ => safe_pure _
theorem safe_readU32 : Safe readU32 := (safe_readBe 4 0).bind fun _ => safe_pure _
theorem safe_readU64 : Safe readU64 := (safe_readBe 8 0).bind fun _ => safe_pure _
theorem safe_readI32 : Safe readI32 := safe_readU32.bind fun _ => safe_pure _
theorem safe_readI64 : Safe readI64 := safe_readU64.bind fun _ => safe_pure _

theorem safe_readBytes (count : Nat) : Safe (readBytes count) := by
  intro data off hoff
  by_cases h : off + count ≤ data.length <;> simp [readBytes, h]

theorem safe_remaining : Safe remaining := by
  intro data off hoff
  simp [remaining]

theorem safe_bytesRemaining : Safe bytesRemaining := by
  intro data off hoff
  simp [bytesRemaining, hoff]

theorem safe_utf8 (bytes : List UInt8) (field : String) : Safe (utf8 bytes field) := by
  unfold utf8
  split
  · exact safe_pure _
  · exact safe_throw _

theorem safe_readLengthPrefixedStr (field : String) : Safe (readLengthPrefixedStr field) :=
  safe_readU16.bind fun _ => (safe_readBytes _).bind fun _ => safe_utf8 _ _

theorem safe_remainingStr (field : String) : Safe (remainingStr field) :=
  safe_remaining.bind fun _ => safe_utf8 _ _

end SlopDesk.Wire

import Mathlib
import ReplicaCensus.Text.Utf8
/-!
# Text survives its encoding

The bytes of a character are read as that character and no more, whatever follows them.
-/

namespace ReplicaCensus.Utf8

/-! ## 1. Bytes as numbers -/

theorem toNat_byte {n : Nat} (h : n < 256) : (UInt8.ofNat n).toNat = n :=
  UInt8.toNat_ofNat_of_lt' h

theorem isContinuation_ofNat {n : Nat} (h : 0x80 ≤ n) (h' : n < 0xC0) :
    isContinuation (UInt8.ofNat n) = true := by
  have hn : (UInt8.ofNat n).toNat = n := toNat_byte (by omega)
  rw [isContinuation, Bool.and_eq_true, decide_eq_true_eq, decide_eq_true_eq,
    UInt8.le_iff_toNat_le, UInt8.lt_iff_toNat_lt, hn]
  exact ⟨h, h'⟩

/-- The second byte of a character has to be in order for its first byte. -/
theorem isSecond_ofNat {s n : Nat} (hs : s < 256) (h : 0x80 ≤ n) (h' : n < 0xC0)
    (hE0 : s = 0xE0 → 0xA0 ≤ n) (hED : s = 0xED → n < 0xA0) (hF0 : s = 0xF0 → 0x90 ≤ n)
    (hF4 : s = 0xF4 → n < 0x90) : isSecond (UInt8.ofNat s) (UInt8.ofNat n) = true := by
  have hn : (UInt8.ofNat n).toNat = n := toNat_byte (by omega)
  have hstart : ∀ m : Nat, m < 256 → (UInt8.ofNat s = UInt8.ofNat m ↔ s = m) := by
    intro m hm
    rw [← UInt8.toNat_inj, toNat_byte hs, toNat_byte hm]
  rw [isSecond, isContinuation_ofNat h h', Bool.true_and]
  have h1 := hstart 0xE0 (by decide)
  have h2 := hstart 0xED (by decide)
  have h3 := hstart 0xF0 (by decide)
  have h4 := hstart 0xF4 (by decide)
  -- only four first bytes ask for more than a continuation byte
  simp only [UInt8.le_iff_toNat_le, UInt8.lt_iff_toNat_lt, hn]
  split
  · next he => exact decide_eq_true (hE0 (h1.1 he))
  split
  · next he => exact decide_eq_true (hED (h2.1 he))
  split
  · next he => exact decide_eq_true (hF0 (h3.1 he))
  split
  · next he => exact decide_eq_true (hF4 (h4.1 he))
  · rfl

theorem startByte?_ofNat {n : Nat} (hn : n < 256) :
    startByte? (UInt8.ofNat n) =
      if n < 0x80 then some (0, n)
      else if n < 0xC2 then none
      else if n < 0xE0 then some (1, n - 0xC0)
      else if n < 0xF0 then some (2, n - 0xE0)
      else if n < 0xF5 then some (3, n - 0xF0)
      else none := by
  rw [startByte?, toNat_byte hn]

/-- A surrogate form starts with `ED` and a byte above those that may follow it. -/
theorem isSurrogateForm_eq_false {s : Nat} (hs : s < 256) (hne : s ≠ 0xED) (rest : Bytes) :
    isSurrogateForm (UInt8.ofNat s) rest = false := by
  have hne' : UInt8.ofNat s ≠ 0xED := by
    rw [Ne, ← UInt8.toNat_inj, toNat_byte hs]
    exact hne
  unfold isSurrogateForm
  split
  · rw [decide_eq_false hne']
    rfl
  · rfl

theorem isSurrogateForm_of_second {s : UInt8} {n : Nat} (h : n < 0xA0) (rest : Bytes) :
    isSurrogateForm s (UInt8.ofNat n :: rest) = false := by
  have hn : (UInt8.ofNat n).toNat = n := toNat_byte (by omega)
  have hle : ¬(0xA0 : UInt8) ≤ UInt8.ofNat n := by
    rw [UInt8.le_iff_toNat_le, hn]
    exact Nat.not_le.2 h
  unfold isSurrogateForm
  split
  · next heq =>
    cases heq
    rw [decide_eq_false hle]
    simp
  · rfl

/-! ## 2. One character -/

theorem continuations_second {s b : UInt8} (h : isSecond s b = true) (k acc : Nat) (rest : Bytes) :
    continuations (k + 1) [s] acc (b :: rest) =
      continuations k [s, b] (acc * 64 + b.toNat % 64) rest := by
  rw [continuations, if_pos (show isNext [s] b = true from h)]
  rfl

theorem continuations_later {s t b : UInt8} (h : isContinuation b = true) (k acc : Nat)
    (seen rest : Bytes) :
    continuations (k + 1) (s :: t :: seen) acc (b :: rest) =
      continuations k (s :: t :: seen ++ [b]) (acc * 64 + b.toNat % 64) rest := by
  show (if isContinuation b then continuations k _ _ rest else _) = _
  rw [if_pos h]

theorem firstChar_of_code {s : Nat} {k : Nat} {bytes rest : Bytes} {c : Char} (acc : Nat)
    (hstart : startByte? (UInt8.ofNat s) = some (k, acc))
    (hrest : continuations k [UInt8.ofNat s] acc (bytes ++ rest) = .ok c.toNat) :
    firstChar (UInt8.ofNat s) (bytes ++ rest) = .ok (c, k) := by
  rw [firstChar, hstart]
  dsimp only
  rw [hrest]
  show Except.ok (Char.ofNat c.toNat, k) = _
  rw [Char.ofNat_toNat]

/-- The bytes of a character are one sequence, which is no surrogate. -/
structure Reads (c : Char) (start : UInt8) (bytes : Bytes) : Prop where
  encode : String.utf8EncodeChar c = start :: bytes
  firstChar : ∀ rest, firstChar start (bytes ++ rest) = .ok (c, bytes.length)
  noSurrogate : ∀ rest, isSurrogateForm start (bytes ++ rest) = false

theorem reads_one {c : Char} (h : c.toNat < 0x80) : Reads c (UInt8.ofNat c.toNat) [] := by
  have hs : c.toNat < 256 := by omega
  refine ⟨?_, fun rest => ?_, fun rest => isSurrogateForm_eq_false hs (by omega) _⟩
  · show (if c.toNat ≤ 0x7f then _ else _) = _
    rw [if_pos (by omega)]
    rfl
  · apply firstChar_of_code c.toNat (startByte?_ofNat hs |>.trans (if_pos h))
    rfl

theorem reads_two {c : Char} (h : 0x80 ≤ c.toNat) (h' : c.toNat < 0x800) :
    Reads c (UInt8.ofNat (c.toNat / 64 % 0x20 + 0xc0)) [UInt8.ofNat (c.toNat % 0x40 + 0x80)] := by
  have hs : c.toNat / 64 % 0x20 + 0xc0 < 256 := by omega
  have hb : c.toNat % 0x40 + 0x80 < 256 := by omega
  refine ⟨?_, fun rest => ?_, fun rest => isSurrogateForm_eq_false hs (by omega) _⟩
  · show (if c.toNat ≤ 0x7f then _ else if c.toNat ≤ 0x7ff then _ else _) = _
    rw [if_neg (by omega), if_pos (by omega)]
    rfl
  · apply firstChar_of_code (c.toNat / 64 % 0x20)
    · rw [startByte?_ofNat hs, if_neg (by omega), if_neg (by omega), if_pos (by omega),
        Nat.add_sub_cancel]
      rfl
    · rw [List.cons_append, List.length_singleton, continuations_second
        (isSecond_ofNat hs (by omega) (by omega) (by omega) (by omega) (by omega) (by omega)),
        toNat_byte hb]
      show Except.ok _ = _
      congr 1
      omega

theorem reads_three {c : Char} (h : 0x800 ≤ c.toNat) (h' : c.toNat < 0x10000) :
    Reads c (UInt8.ofNat (c.toNat / 4096 % 0x10 + 0xe0))
      [UInt8.ofNat (c.toNat / 64 % 0x40 + 0x80), UInt8.ofNat (c.toNat % 0x40 + 0x80)] := by
  have hs : c.toNat / 4096 % 0x10 + 0xe0 < 256 := by omega
  have hb : c.toNat / 64 % 0x40 + 0x80 < 256 := by omega
  have hb' : c.toNat % 0x40 + 0x80 < 256 := by omega
  -- no character is a surrogate, so after `ED` the second byte is small
  have hsurrogate : c.toNat < 0xD800 ∨ 0xDFFF < c.toNat := by
    rcases c.valid with hv | hv
    · exact .inl hv
    · exact .inr hv.1
  refine ⟨?_, fun rest => ?_, fun rest => ?_⟩
  · show (if c.toNat ≤ 0x7f then _ else if c.toNat ≤ 0x7ff then _ else if c.toNat ≤ 0xffff then _
      else _) = _
    rw [if_neg (by omega), if_neg (by omega), if_pos (by omega)]
    rfl
  · apply firstChar_of_code (c.toNat / 4096 % 0x10)
    · rw [startByte?_ofNat hs, if_neg (by omega), if_neg (by omega), if_neg (by omega),
        if_pos (by omega), Nat.add_sub_cancel]
      rfl
    · show continuations 2 _ _ (_ :: _ :: rest) = _
      rw [continuations_second
        (isSecond_ofNat hs (by omega) (by omega) (by omega) (by omega) (by omega) (by omega)),
        continuations_later (isContinuation_ofNat (by omega) (by omega)), toNat_byte hb,
        toNat_byte hb']
      show Except.ok _ = _
      congr 1
      omega
  · by_cases hED : c.toNat / 4096 % 0x10 + 0xe0 = 0xED
    · exact isSurrogateForm_of_second (by omega) _
    · exact isSurrogateForm_eq_false hs hED _

theorem reads_four {c : Char} (h : 0x10000 ≤ c.toNat) :
    Reads c (UInt8.ofNat (c.toNat / 262144 % 0x08 + 0xf0))
      [UInt8.ofNat (c.toNat / 4096 % 0x40 + 0x80), UInt8.ofNat (c.toNat / 64 % 0x40 + 0x80),
        UInt8.ofNat (c.toNat % 0x40 + 0x80)] := by
  have hmax : c.toNat < 0x110000 := by
    rcases c.valid with hv | hv
    · exact Nat.lt_trans hv (by decide)
    · exact hv.2
  have hs : c.toNat / 262144 % 0x08 + 0xf0 < 256 := by omega
  have hb : c.toNat / 4096 % 0x40 + 0x80 < 256 := by omega
  have hb' : c.toNat / 64 % 0x40 + 0x80 < 256 := by omega
  have hb'' : c.toNat % 0x40 + 0x80 < 256 := by omega
  refine ⟨?_, fun rest => ?_, fun rest => isSurrogateForm_eq_false hs (by omega) _⟩
  · show (if c.toNat ≤ 0x7f then _ else if c.toNat ≤ 0x7ff then _ else if c.toNat ≤ 0xffff then _
      else _) = _
    rw [if_neg (by omega), if_neg (by omega), if_neg (by omega)]
    rfl
  · apply firstChar_of_code (c.toNat / 262144 % 0x08)
    · rw [startByte?_ofNat hs, if_neg (by omega), if_neg (by omega), if_neg (by omega),
        if_neg (by omega), if_pos (by omega), Nat.add_sub_cancel]
      rfl
    · show continuations 3 _ _ (_ :: _ :: _ :: rest) = _
      rw [continuations_second
        (isSecond_ofNat hs (by omega) (by omega) (by omega) (by omega) (by omega) (by omega)),
        continuations_later (isContinuation_ofNat (by omega) (by omega))]
      show continuations 1 (_ :: _ :: [_]) _ _ = _
      rw [continuations_later (isContinuation_ofNat (by omega) (by omega)), toNat_byte hb,
        toNat_byte hb', toNat_byte hb'']
      show Except.ok _ = _
      congr 1
      omega

theorem exists_reads (c : Char) : ∃ start bytes, Reads c start bytes := by
  -- a character takes one to four bytes, by its code
  by_cases h1 : c.toNat < 0x80
  · exact ⟨_, _, reads_one h1⟩
  by_cases h2 : c.toNat < 0x800
  · exact ⟨_, _, reads_two (by omega) h2⟩
  by_cases h3 : c.toNat < 0x10000
  · exact ⟨_, _, reads_three (by omega) h3⟩
  · exact ⟨_, _, reads_four (by omega)⟩

/-! ## 3. A text -/

theorem encode_cons (c : Char) (cs : List Char) :
    encode (c :: cs) = String.utf8EncodeChar c ++ encode cs := rfl

theorem encode_append (as bs : List Char) : encode (as ++ bs) = encode as ++ encode bs :=
  List.flatMap_append

theorem decodeFrom_encode (surrogates : Bool) (position : Nat) (cs : List Char) :
    decodeFrom surrogates position (encode cs) = .ok cs := by
  induction cs generalizing position with
  | nil =>
    show decodeFrom surrogates position [] = _
    rw [decodeFrom]
  | cons c rest ih =>
    obtain ⟨start, bytes, hreads⟩ := exists_reads c
    rw [encode_cons, hreads.encode, List.cons_append, decodeFrom, hreads.noSurrogate,
      Bool.and_false, if_neg Bool.false_ne_true, hreads.firstChar]
    dsimp only
    rw [List.drop_left, ih]
    rfl

theorem decode_encode (cs : List Char) : decode (encode cs) = .ok cs :=
  decodeFrom_encode false 0 cs

/-! ## 4. A text in pieces -/

/-- Continuation bytes that stop too early are the beginning of a character. -/
theorem continuations_of_prefix {k acc n : Nat} {seen bytes more : Bytes}
    (h : continuations k seen acc (bytes ++ more) = .ok n) (hlt : bytes.length < k) :
    ∃ seen', continuations k seen acc bytes = .error (seen', .unexpectedEnd) := by
  induction bytes generalizing k acc seen with
  | nil =>
    obtain ⟨k, rfl⟩ := Nat.exists_eq_succ_of_ne_zero (Nat.ne_of_gt hlt)
    exact ⟨seen, by rw [continuations]⟩
  | cons b rest ih =>
    obtain ⟨k, rfl⟩ := Nat.exists_eq_succ_of_ne_zero (Nat.ne_zero_of_lt hlt)
    rw [List.cons_append, continuations] at h
    rw [continuations]
    split at h
    · next hnext =>
      rw [if_pos hnext]
      exact ih h (Nat.lt_of_succ_lt_succ hlt)
    · cases h

theorem Reads.isPending {c : Char} {start : UInt8} {bytes : Bytes} (h : Reads c start bytes)
    {front more : Bytes} (hbytes : bytes = front ++ more) (hmore : more ≠ []) :
    isPending start front = true := by
  have hfirst := h.firstChar []
  rw [List.append_nil] at hfirst
  rw [Utf8.isPending]
  unfold Utf8.firstChar at hfirst ⊢
  cases hstart : startByte? start with
  | none =>
    rw [hstart] at hfirst
    cases hfirst
  | some found =>
    obtain ⟨k, acc⟩ := found
    rw [hstart] at hfirst
    dsimp only at hfirst ⊢
    cases hcode : continuations k [start] acc bytes with
    | error fault =>
      rw [hcode] at hfirst
      cases hfirst
    | ok code =>
      rw [hcode] at hfirst
      have hk : k = bytes.length := congrArg Prod.snd (Except.ok.inj hfirst)
      have hlt : front.length < k := by
        rw [hk, hbytes, List.length_append]
        exact Nat.lt_add_of_pos_right (List.length_pos_iff.2 hmore)
      rw [hbytes] at hcode
      obtain ⟨seen, hcut⟩ := continuations_of_prefix hcode hlt
      rw [hcut]
      rfl

/-- Bytes that begin an encoded text are whole characters, and the beginning of the one that they
end within. -/
theorem splitPending_of_encode {cs : List Char} {front behind : Bytes}
    (h : front ++ behind = encode cs) :
    ∃ as bs pending, cs = as ++ bs ∧ splitPending front = (encode as, pending) ∧
      pending ++ behind = encode bs := by
  induction cs generalizing front with
  | nil =>
    obtain ⟨rfl, rfl⟩ := List.append_eq_nil_iff.1 (h.trans List.flatMap_nil)
    refine ⟨[], [], [], rfl, ?_, rfl⟩
    rw [splitPending]
    rfl
  | cons c rest ih =>
    obtain ⟨start, bytes, hreads⟩ := exists_reads c
    rw [encode_cons, hreads.encode, List.cons_append] at h
    cases front with
    | nil =>
      refine ⟨[], c :: rest, [], rfl, ?_, ?_⟩
      · rw [splitPending]
        rfl
      · rw [encode_cons, hreads.encode]
        exact h
    | cons b front =>
      obtain ⟨rfl, hfront⟩ : b = start ∧ front ++ behind = bytes ++ encode rest := List.cons.inj h
      by_cases hwhole : ∃ tail, front = bytes ++ tail
      · obtain ⟨tail, rfl⟩ := hwhole
        rw [List.append_assoc, List.append_cancel_left_eq] at hfront
        obtain ⟨as, bs, pending, rfl, hsplit, hbehind⟩ := ih hfront
        refine ⟨c :: as, bs, pending, rfl, ?_, hbehind⟩
        have hfirst := hreads.firstChar tail
        have hpending : isPending b (bytes ++ tail) = false := by
          rw [isPending, hfirst]
        rw [encode_cons, hreads.encode, splitPending, hpending, if_neg Bool.false_ne_true, hfirst]
        dsimp only
        rw [List.drop_left, List.take_left, hsplit, List.cons_append]
      · -- the bytes end within the first character
        rcases List.append_eq_append_iff.1 hfront with ⟨more, hbytes, -⟩ | ⟨tail, htail, -⟩
        · have hmore : more ≠ [] := by
            rintro rfl
            exact hwhole ⟨[], by rw [hbytes, List.append_nil, List.append_nil]⟩
          refine ⟨[], c :: rest, b :: front, rfl, ?_, ?_⟩
          · rw [splitPending, hreads.isPending hbytes hmore, if_pos rfl]
            rfl
          · rw [encode_cons, hreads.encode]
            exact congrArg (b :: ·) hfront
        · exact absurd ⟨tail, htail⟩ hwhole

theorem decodePieces_of_encode {cs : List Char} {pending : Bytes} {pieces : List Bytes}
    (h : pending ++ pieces.flatten = encode cs) : decodePieces pending pieces = (cs, none) := by
  induction pieces generalizing pending cs with
  | nil =>
    rw [List.flatten_nil, List.append_nil] at h
    rw [decodePieces, h, decode_encode]
  | cons piece rest ih =>
    rw [List.flatten_cons, ← List.append_assoc] at h
    obtain ⟨as, bs, pending', rfl, hsplit, hbehind⟩ := splitPending_of_encode h
    rw [decodePieces, hsplit]
    dsimp only
    rw [decode_encode, ih hbehind]

theorem flatten_piecesWithin {budget : Nat} {bytes : Bytes} (h : bytes.length ≤ budget) :
    (piecesWithin budget bytes).flatten = bytes := by
  induction budget generalizing bytes with
  | zero => exact (List.eq_nil_of_length_eq_zero (Nat.le_zero.1 h)).symm
  | succ budget ih =>
    rw [piecesWithin]
    split
    · next hnil => exact (List.isEmpty_iff.1 hnil).symm
    · have hsize : 0 < pieceSize := by decide
      rw [List.flatten_cons, ih (by rw [List.length_drop]; omega), List.take_append_drop]

/-- A file that is text is decoded as a whole, wherever its pieces end. -/
theorem decodePieces_encode (cs : List Char) :
    decodePieces [] (pieces (encode cs)) = (cs, none) :=
  decodePieces_of_encode (flatten_piecesWithin (Nat.le_refl _))

end ReplicaCensus.Utf8

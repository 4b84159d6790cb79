import EditorLint.Yaml.Input

/-!
# Encoding and decoding

A file is decoded in blocks of bytes, and what a block breaks off in waits for the next
one.  Characters that are encoded come back, wherever the blocks end: a beginning of their
bytes ends with a character or inside one, and what it ends inside is too short, not wrong.
-/

namespace EditorLint.Utf8

variable {k : Nat}

theorem toNat_ofNat (h : k < 0x100) : (UInt8.ofNat k).toNat = k := by
  rw [UInt8.toNat_ofNat', Nat.mod_eq_of_lt h]

theorem shape_ofNat : ∀ k < 0x100, shape (.ofNat k) =
    if 0xC2 ≤ k ∧ k ≤ 0xDF then some (1, 0x80, 0xBF)
    else if 0xE0 ≤ k ∧ k ≤ 0xEF then
      some (2, if k = 0xE0 then 0xA0 else 0x80, if k = 0xED then 0x9F else 0xBF)
    else if 0xF0 ≤ k ∧ k ≤ 0xF4 then
      some (3, if k = 0xF0 then 0x90 else 0x80, if k = 0xF4 then 0x8F else 0xBF)
    else none := by
  decide +kernel

def continued (m : Nat) : UInt8 := .ofNat (0x80 + m)

def summed (sum : Nat) (ms : List Nat) : Nat := ms.foldl (fun sum m => sum * 0x40 + m) sum

/-- Continuation bytes are read one by one, and a beginning of them is too short. -/
theorem continuation_continued {ms : List Nat} {lo hi : UInt8} {sum used : Nat}
    (hm : ∀ m ∈ ms, m < 0x40) (hlo : ∀ m ∈ ms.head?, lo.toNat ≤ 0x80 + m)
    (hhi : ∀ m ∈ ms.head?, 0x80 + m ≤ hi.toNat) :
    (∀ rest, continuation ms.length lo hi sum used (ms.map continued ++ rest) =
      .char (.ofNat (summed sum ms)) (used + ms.length)) ∧
    ∀ k < ms.length, continuation ms.length lo hi sum used ((ms.map continued).take k) =
      .fault .ended (used + k) := by
  induction ms generalizing lo hi sum used with
  | nil => exact ⟨fun rest => rfl, fun k hk => absurd hk (Nat.not_lt_zero k)⟩
  | cons m ms ih =>
    have hb : (continued m).toNat = 0x80 + m := toNat_ofNat (by have := hm m (by simp); omega)
    have hin : lo ≤ continued m ∧ continued m ≤ hi := by
      simp only [UInt8.le_iff_toNat_le, hb]
      exact ⟨hlo m rfl, hhi m rfl⟩
    have hsmall : ∀ x ∈ ms, x < 0x40 := fun x hx => hm x (List.mem_cons_of_mem m hx)
    -- Only the first continuation byte has a range of its own.
    have hhigh : ∀ x ∈ ms.head?, 0x80 + x ≤ (0xBF : UInt8).toNat := by
      intro x hx
      have := hsmall x (List.mem_of_mem_head? hx)
      simp
      omega
    obtain ⟨hfull, hshort⟩ := @ih 0x80 0xBF (sum * 0x40 + m) (used + 1) hsmall
      (fun x _ => by simp) hhigh
    have hstep (rest : List UInt8) : continuation (ms.length + 1) lo hi sum used
        (continued m :: rest) =
          continuation ms.length 0x80 0xBF (sum * 0x40 + m) (used + 1) rest := by
      rw [continuation, if_pos hin, hb, Nat.add_sub_cancel_left]
    constructor
    · intro rest
      rw [List.map_cons, List.cons_append, List.length_cons, hstep, hfull]
      congr 1
      omega
    · intro k hk
      cases k with
      | zero => rfl
      | succ k =>
        have hlt : k < ms.length := by simpa using hk
        rw [List.map_cons, List.take_succ_cons, List.length_cons, hstep, hshort k hlt]
        congr 1
        omega

/-- A character of several bytes is read off them, and a beginning of them is too short. -/
theorem head_continued {due : Nat} {ms : List Nat} {lo hi : UInt8} {c : Char} (h : 0x80 ≤ k)
    (h' : k < 0x100) (hs : shape (.ofNat k) = some (due, lo, hi)) (hdue : due = ms.length)
    (hm : ∀ m ∈ ms, m < 0x40) (hlo : ∀ m ∈ ms.head?, lo.toNat ≤ 0x80 + m)
    (hhi : ∀ m ∈ ms.head?, 0x80 + m ≤ hi.toNat)
    (hsum : summed (if due = 1 then k - 0xC0 else if due = 2 then k - 0xE0 else k - 0xF0) ms =
      c.toNat) :
    (∀ rest, head (.ofNat k) (ms.map continued ++ rest) = .char c (ms.map continued).length) ∧
    ∀ j < (ms.map continued).length,
      head (.ofNat k) ((ms.map continued).take j) = .fault .ended j := by
  have hb : (UInt8.ofNat k).toNat = k := toNat_ofNat h'
  have hlow : ¬UInt8.ofNat k < 0x80 := by
    simp only [UInt8.lt_iff_toNat_lt, hb]
    exact Nat.not_lt.mpr h
  have hhead (rest : List UInt8) : head (.ofNat k) rest = continuation due lo hi
      (if due = 1 then k - 0xC0 else if due = 2 then k - 0xE0 else k - 0xF0) 0 rest := by
    unfold head
    rw [if_neg hlow, hs]
    simp only [hb]
  rw [List.length_map]
  subst hdue
  obtain ⟨hfull, hshort⟩ := @continuation_continued _ _ _
    (if ms.length = 1 then k - 0xC0 else if ms.length = 2 then k - 0xE0 else k - 0xF0) 0 hm hlo hhi
  constructor
  · intro rest
    rw [hhead, hfull, hsum, Char.ofNat_toNat, Nat.zero_add]
  · intro j hj
    rw [hhead, hshort j hj, Nat.zero_add]

/-- A character is read off its bytes, and a beginning of them is too short. -/
theorem head_encodeChar (c : Char) : ∃ b tail, encodeChar c = b :: tail ∧
    (∀ rest, head b (tail ++ rest) = .char c tail.length) ∧
    ∀ k < tail.length, head b (tail.take k) = .fault .ended k := by
  have hvalid : c.toNat < 0xD800 ∨ 0xDFFF < c.toNat ∧ c.toNat < 0x110000 := c.valid
  obtain ⟨n, hn⟩ : ∃ n, c.toNat = n := ⟨_, rfl⟩
  rw [hn] at hvalid
  unfold encodeChar
  simp only [hn]
  by_cases h1 : n < 0x80
  · have hb : (UInt8.ofNat n).toNat = n := toNat_ofNat (by omega)
    have hlow : UInt8.ofNat n < 0x80 := by
      simp only [UInt8.lt_iff_toNat_lt, hb]
      exact h1
    refine ⟨.ofNat n, [], if_pos h1, fun rest => ?_, fun k hk => absurd hk (Nat.not_lt_zero k)⟩
    unfold head
    rw [if_pos hlow, hb, ← hn, Char.ofNat_toNat]
    rfl
  rw [if_neg h1]
  by_cases h2 : n < 0x800
  · have hs := shape_ofNat (0xC0 + n / 0x40) (by omega)
    rw [if_pos (by omega)] at hs
    refine ⟨_, [n % 0x40].map continued, if_pos h2,
      head_continued (by omega) (by omega) hs rfl (by simp; omega) ?lo ?hi ?sum⟩
    case lo => simp
    case hi => simp; omega
    case sum => simp [summed, hn]; omega
  rw [if_neg h2]
  by_cases h3 : n < 0x10000
  · have hs := shape_ofNat (0xE0 + n / 0x1000) (by omega)
    rw [if_neg (by omega), if_pos (by omega)] at hs
    refine ⟨_, [n / 0x40 % 0x40, n % 0x40].map continued, if_pos h3,
      head_continued (by omega) (by omega) hs rfl (by simp; omega) ?lo ?hi ?sum⟩
    -- The first byte bounds the second one: the form is no longer than it has to be, and what it
    -- encodes is no surrogate.
    case lo =>
      simp
      split <;> simp
      omega
    case hi =>
      simp
      split <;> simp <;> omega
    case sum => simp [summed, hn]; omega
  · have hs := shape_ofNat (0xF0 + n / 0x40000) (by omega)
    rw [if_neg (by omega), if_neg (by omega), if_pos (by omega)] at hs
    refine ⟨_, [n / 0x1000 % 0x40, n / 0x40 % 0x40, n % 0x40].map continued, if_neg h3,
      head_continued (by omega) (by omega) hs rfl (by simp; omega) ?lo ?hi ?sum⟩
    -- Here the other end is that of all characters.
    case lo =>
      simp
      split <;> simp
      omega
    case hi =>
      simp
      split <;> simp <;> omega
    case sum => simp [summed, hn]; omega

theorem encodeChars_cons (c : Char) (cs : List Char) :
    encodeChars (c :: cs) = encodeChar c ++ encodeChars cs := List.flatMap_cons

@[simp] theorem encodeChars_append (cs ds : List Char) :
    encodeChars (cs ++ ds) = encodeChars cs ++ encodeChars ds := List.flatMap_append

theorem decodeFrom_append (cs : List Char) (pos : Nat) (rest : List UInt8) :
    decodeFrom pos (encodeChars cs ++ rest) =
      (decodeFrom (pos + (encodeChars cs).length) rest).map (cs ++ ·) := by
  induction cs generalizing pos with
  | nil =>
    show decodeFrom pos rest = (decodeFrom pos rest).map id
    cases decodeFrom pos rest <;> rfl
  | cons c cs ih =>
    obtain ⟨b, tail, hb, hhead, -⟩ := head_encodeChar c
    have hcons : encodeChars (c :: cs) ++ rest = b :: (tail ++ (encodeChars cs ++ rest)) := by
      rw [encodeChars_cons, hb]
      simp
    have hlength : pos + (encodeChars (c :: cs)).length =
        pos + tail.length + 1 + (encodeChars cs).length := by
      rw [encodeChars_cons, hb, List.length_append, List.length_cons]
      omega
    rw [hcons, decodeFrom, hhead]
    simp only [List.drop_left]
    rw [ih, hlength]
    cases decodeFrom (pos + tail.length + 1 + (encodeChars cs).length) rest <;> rfl

theorem decode_encodeChars (cs : List Char) : decode (encodeChars cs) = .ok cs := by
  have h := decodeFrom_append cs 0 []
  rw [List.append_nil] at h
  unfold decode
  rw [h, decodeFrom]
  simp [Except.map]

theorem decode_cut (cs : List Char) {c : Char} {k : Nat} (hpos : 0 < k)
    (hk : k < (encodeChar c).length) :
    decode (encodeChars cs ++ (encodeChar c).take k) =
      .error ⟨(encodeChar c).take k, (encodeChars cs).length, .ended⟩ := by
  obtain ⟨b, tail, hb, -, hshort⟩ := head_encodeChar c
  rw [hb] at hk ⊢
  obtain ⟨j, rfl⟩ : ∃ j, k = j + 1 := ⟨k - 1, by omega⟩
  have hj : j < tail.length := by simpa using hk
  unfold decode
  rw [decodeFrom_append, List.take_succ_cons, decodeFrom, hshort j hj]
  simp [Except.map, List.take_take]

/-- A beginning of the bytes of characters ends with a character or in one. -/
theorem beginning_encodeChars {cs : List Char} {p q : List UInt8} (h : p ++ q = encodeChars cs) :
    ∃ done more, cs = done ++ more ∧ (p = encodeChars done ∨ ∃ c k, 0 < k ∧
      k < (encodeChar c).length ∧ c ∈ more.head? ∧
      p = encodeChars done ++ (encodeChar c).take k) := by
  -- On the characters: the beginning ends in the first one, or goes on behind it.
  induction cs generalizing p with
  | nil =>
    have hp : p = [] := (List.append_eq_nil_iff.mp h).1
    exact ⟨[], [], rfl, .inl hp⟩
  | cons c cs ih =>
    rw [encodeChars_cons] at h
    rcases List.append_eq_append_iff.mp h with ⟨a, hc, hq⟩ | ⟨a, hp, hq⟩
    · -- The beginning does not go beyond the first character.
      by_cases hnil : p = []
      · exact ⟨[], c :: cs, rfl, .inl hnil⟩
      by_cases ha : a = []
      · refine ⟨[c], cs, rfl, .inl ?_⟩
        rw [encodeChars_cons, hc, ha]
        simp [encodeChars]
      · refine ⟨[], c :: cs, rfl, .inr ⟨c, p.length, ?_, ?_, rfl, ?_⟩⟩
        · exact List.length_pos_iff.mpr hnil
        · have := List.length_pos_iff.mpr ha
          rw [hc, List.length_append]
          omega
        · rw [hc, List.take_left]
          rfl
    · obtain ⟨done, more, rfl, hends⟩ := ih hq.symm
      refine ⟨c :: done, more, rfl, ?_⟩
      rw [encodeChars_cons, hp]
      rcases hends with rfl | ⟨d, k, hpos, hk, hd, rfl⟩
      · exact .inl rfl
      · exact .inr ⟨d, k, hpos, hk, hd, by rw [List.append_assoc]⟩

end EditorLint.Utf8

namespace EditorLint.Blocks

open Utf8

theorem decodeAfter_encodeChars (fuel : Nat) {cs : List Char} {waiting bytes : List UInt8}
    (h : waiting ++ bytes = encodeChars cs) (hfuel : bytes.length ≤ fuel * byteCount)
    (hpos : 0 < fuel) : decodeAfter fuel waiting bytes = (cs, none) := by
  -- On the blocks: a block ends with a character, or in one whose first bytes wait for the next
  -- block.
  induction fuel generalizing cs waiting bytes with
  | zero => omega
  | succ fuel ih =>
    have hsplit : (waiting ++ bytes.take byteCount) ++ bytes.drop byteCount = encodeChars cs := by
      rw [List.append_assoc, List.take_append_drop, h]
    have hrest : (bytes.drop byteCount).length ≤ fuel * byteCount := by
      rw [Nat.succ_mul] at hfuel
      rw [List.length_drop]
      omega
    have hmore : bytes.drop byteCount ≠ [] → 0 < fuel := by
      intro hne
      have := List.length_pos_iff.mpr hne
      rcases Nat.eq_zero_or_pos fuel with rfl | hf
      · omega
      · exact hf
    obtain ⟨done, more, rfl, hends⟩ := beginning_encodeChars hsplit
    unfold decodeAfter
    dsimp only
    rcases hends with hwhole | ⟨c, k, hk0, hk, hc, hcut⟩
    · rw [hwhole, decode_encodeChars]
      have hleft : bytes.drop byteCount = encodeChars more := by
        rw [hwhole, encodeChars_append] at hsplit
        exact List.append_cancel_left hsplit
      dsimp only
      by_cases hempty : bytes.drop byteCount = []
      · have hnone : more = [] := by
          rw [hempty] at hleft
          cases more with
          | nil => rfl
          | cons c more =>
            obtain ⟨b, tail, hb, -⟩ := head_encodeChar c
            rw [encodeChars_cons, hb] at hleft
            cases hleft
        rw [hempty, hnone]
        simp
      · have hnext : [] ++ bytes.drop byteCount = encodeChars more := hleft
        rw [ih hnext hrest (hmore hempty)]
        simp [hempty]
    · rw [hcut, List.append_assoc, encodeChars_append] at hsplit
      have hleft := List.append_cancel_left hsplit
      -- A character is cut only where there are more bytes to come.
      have hempty : bytes.drop byteCount ≠ [] := by
        intro hempty
        obtain ⟨tail, rfl⟩ : ∃ tail, more = c :: tail := by
          cases more with
          | nil => cases hc
          | cons d tail => exact ⟨tail, by rw [Option.some.inj hc]⟩
        have hlength := congrArg List.length hleft
        rw [hempty, encodeChars_cons, List.append_nil, List.length_take, List.length_append]
          at hlength
        omega
      have hbytes : bytes.isEmpty = false := by
        cases bytes with
        | nil => exact absurd List.drop_nil hempty
        | cons b bytes => rfl
      have hlast := ih hleft hrest (hmore hempty)
      rw [hcut, decode_cut done hk0 hk]
      simp [hbytes, hlast, decode_encodeChars, Except.toOption]

/-- A file that holds the bytes of characters without carriage returns reads as them. -/
theorem decode_encodeChars {cs : List Char} (h : '\r' ∉ cs) :
    decode (encodeChars cs) = (cs, none) := by
  have normal : ∀ {cs : List Char}, '\r' ∉ cs → Newline.normalize cs = cs := by
    intro cs hcs
    induction cs with
    | nil => rfl
    | cons c cs ih =>
      have hc : c ≠ '\r' := fun he => hcs (he ▸ List.mem_cons_self)
      have hrest : '\r' ∉ cs := fun hm => hcs (List.mem_cons_of_mem c hm)
      rw [Newline.normalize, ih hrest]
      · intro _ hr
        exact absurd hr hc
      · exact hc
  have hfuel : (encodeChars cs).length ≤
      ((encodeChars cs).length / byteCount + 2) * byteCount := by
    have := Nat.div_add_mod (encodeChars cs).length byteCount
    have := Nat.mod_lt (encodeChars cs).length (show 0 < byteCount by decide)
    rw [Nat.add_mul, Nat.mul_comm]
    omega
  unfold decode
  rw [decodeAfter_encodeChars _ (List.nil_append _) hfuel (Nat.succ_pos _)]
  simp only [normal h]

end EditorLint.Blocks

namespace EditorLint.Yaml

/-- A file that holds the bytes of characters that a document can contain is read as them. -/
theorem Input.ofBytes_encodeChars {cs : List Char} (h : '\r' ∉ cs)
    (hprintable : ∀ ch ∈ cs, isPrintable ch = true) :
    Input.ofBytes (Utf8.encodeChars cs) = ⟨cs, none⟩ := by
  have hfind : cs.find? (!isPrintable ·) = none := by
    rw [List.find?_eq_none]
    intro ch hch
    simp [hprintable ch hch]
  unfold Input.ofBytes
  rw [Blocks.decode_encodeChars h]
  unfold Input.ofChars
  dsimp only
  rw [hfind]

end EditorLint.Yaml

import EditorLint.Proofs.CommandRuns
import EditorLint.Proofs.Decoding
import EditorLint.Proofs.LiveText
import EditorLint.Proofs.Saving
import Mathlib.Data.List.Basic

/-!
# What is saved is what was opened

A byte sequence decodes exactly if it is well-formed, and what it decodes to encodes to the
same bytes (`decode_eq_ok_iff`): no byte is dropped on the way in, and none is added on the way
out.  So a document that is opened and saved unchanged leaves every file as it is, a text that
is saved is the text that is opened again, and a file that is not well-formed is not opened at
all (`reopen_saved`).
-/

namespace EditorLint.Utf8

/-! ## Well-formed bytes -/

theorem summed_cons (sum m : Nat) (ms : List Nat) :
    summed sum (m :: ms) = summed (sum * 0x40 + m) ms := rfl

/-- Continuation bytes that were read are six bits each, the first one in its own range. -/
theorem continuation_char {due sum used more : Nat} {lo hi : UInt8} {rest : List UInt8} {c : Char}
    (hlo : 0x80 ≤ lo.toNat) (hhi : hi.toNat ≤ 0xBF)
    (h : continuation due lo hi sum used rest = .char c more) :
    ∃ ms : List Nat, ms.length = due ∧ more = used + due ∧
      ms.map continued ++ rest.drop due = rest ∧ (∀ m ∈ ms, m < 0x40) ∧
      (∀ m ∈ ms.head?, lo.toNat ≤ 0x80 + m ∧ 0x80 + m ≤ hi.toNat) ∧ c = .ofNat (summed sum ms) := by
  induction due generalizing lo hi sum used rest with
  | zero =>
    obtain ⟨rfl, rfl⟩ := Head.char.inj h
    exact ⟨[], rfl, rfl, rfl, by simp, by simp, rfl⟩
  | succ due ih =>
    cases rest with
    | nil => cases h
    | cons b rest =>
      unfold continuation at h
      split at h
      · rename_i hrange
        obtain ⟨hb, hb'⟩ : lo.toNat ≤ b.toNat ∧ b.toNat ≤ hi.toNat := hrange
        obtain ⟨ms, rfl, rfl, hrest, hms, -, rfl⟩ :=
          ih (by decide) (by decide) h
        have hcontinued : continued (b.toNat - 0x80) = b := by
          unfold continued
          rw [Nat.add_sub_cancel' (by omega), UInt8.ofNat_toNat]
        refine ⟨(b.toNat - 0x80) :: ms, rfl, by omega, ?_, ?_, ?_, by rw [summed_cons]⟩
        · rw [List.map_cons, hcontinued, List.cons_append, List.drop_succ_cons, hrest]
        · exact List.forall_mem_cons.mpr ⟨by omega, hms⟩
        · rintro m hm
          obtain rfl := Option.some.inj hm
          exact ⟨by omega, by omega⟩
      · cases h

theorem encodeChar_ofNat {n : Nat} (h : n.isValidChar) : encodeChar (.ofNat n) =
    if n < 0x80 then [.ofNat n]
    else if n < 0x800 then [.ofNat (0xC0 + n / 0x40), continued (n % 0x40)]
    else if n < 0x10000 then
      [.ofNat (0xE0 + n / 0x1000), continued (n / 0x40 % 0x40), continued (n % 0x40)]
    else
      [.ofNat (0xF0 + n / 0x40000), continued (n / 0x1000 % 0x40), continued (n / 0x40 % 0x40),
        continued (n % 0x40)] := by
  have hn : (Char.ofNat n).toNat = n := by
    rw [Char.ofNat, dif_pos h]
    rfl
  unfold encodeChar
  rw [hn]
  rfl

theorem encodeChar_two {k m : Nat} (hk : 0xC2 ≤ k ∧ k ≤ 0xDF) (hm : m < 0x40) :
    encodeChar (.ofNat (summed (k - 0xC0) [m])) = [.ofNat k, continued m] := by
  obtain ⟨n, hn⟩ : ∃ n, (k - 0xC0) * 0x40 + m = n := ⟨_, rfl⟩
  have hsum : summed (k - 0xC0) [m] = n := hn
  have hk0 : 0xC0 + n / 0x40 = k := by omega
  have hk1 : n % 0x40 = m := by omega
  rw [hsum, encodeChar_ofNat (.inl (by omega)), if_neg (by omega), if_pos (by omega), hk0, hk1]

/-- The bounds on the second byte leave out the overlong forms and the surrogates. -/
theorem encodeChar_three {k m m' : Nat} (hk : 0xE0 ≤ k ∧ k ≤ 0xEF) (hm : m < 0x40)
    (hm' : m' < 0x40) (hlow : k = 0xE0 → 0xA0 ≤ 0x80 + m) (hhigh : k = 0xED → 0x80 + m ≤ 0x9F) :
    encodeChar (.ofNat (summed (k - 0xE0) [m, m'])) = [.ofNat k, continued m, continued m'] := by
  obtain ⟨n, hn⟩ : ∃ n, ((k - 0xE0) * 0x40 + m) * 0x40 + m' = n := ⟨_, rfl⟩
  have hsum : summed (k - 0xE0) [m, m'] = n := hn
  have hvalid : n.isValidChar := by
    rcases Nat.lt_or_ge n 0xD800 with h | h
    · exact .inl h
    · exact .inr ⟨by omega, by omega⟩
  have hk0 : 0xE0 + n / 0x1000 = k := by omega
  have hk1 : n / 0x40 % 0x40 = m := by omega
  have hk2 : n % 0x40 = m' := by omega
  rw [hsum, encodeChar_ofNat hvalid, if_neg (by omega), if_neg (by omega), if_pos (by omega), hk0,
    hk1, hk2]

/-- The bounds on the second byte leave out the overlong forms and what is past the last
character. -/
theorem encodeChar_four {k m m' m'' : Nat} (hk : 0xF0 ≤ k ∧ k ≤ 0xF4) (hm : m < 0x40)
    (hm' : m' < 0x40) (hm'' : m'' < 0x40) (hlow : k = 0xF0 → 0x90 ≤ 0x80 + m)
    (hhigh : k = 0xF4 → 0x80 + m ≤ 0x8F) :
    encodeChar (.ofNat (summed (k - 0xF0) [m, m', m''])) =
      [.ofNat k, continued m, continued m', continued m''] := by
  obtain ⟨n, hn⟩ : ∃ n, (((k - 0xF0) * 0x40 + m) * 0x40 + m') * 0x40 + m'' = n := ⟨_, rfl⟩
  have hsum : summed (k - 0xF0) [m, m', m''] = n := hn
  have hvalid : n.isValidChar := .inr ⟨by omega, by omega⟩
  have hk0 : 0xF0 + n / 0x40000 = k := by omega
  have hk1 : n / 0x1000 % 0x40 = m := by omega
  have hk2 : n / 0x40 % 0x40 = m' := by omega
  have hk3 : n % 0x40 = m'' := by omega
  rw [hsum, encodeChar_ofNat hvalid, if_neg (by omega), if_neg (by omega), if_neg (by omega), hk0,
    hk1, hk2, hk3]

theorem encodeChar_of_head {b : UInt8} {rest : List UInt8} {c : Char} {more : Nat}
    (h : head b rest = .char c more) : encodeChar c ++ rest.drop more = b :: rest := by
  obtain ⟨k, hk, rfl⟩ : ∃ k < 0x100, b = .ofNat k := ⟨b.toNat, b.toNat_lt, UInt8.ofNat_toNat.symm⟩
  unfold head at h
  rw [toNat_ofNat hk] at h
  -- Each range of the first byte fixes how many bytes follow; what they encode is the number that
  -- was read from them.
  split at h
  · rename_i hlow
    obtain ⟨rfl, rfl⟩ := Head.char.inj h
    have hlow : k < 0x80 := by
      rwa [UInt8.lt_iff_toNat_lt, toNat_ofNat hk] at hlow
    rw [encodeChar_ofNat (.inl (by omega)), if_pos hlow]
    rfl
  · rw [shape_ofNat k hk] at h
    by_cases h1 : 0xC2 ≤ k ∧ k ≤ 0xDF
    · rw [if_pos h1] at h
      obtain ⟨ms, hlength, rfl, hrest, hms, -, rfl⟩ :=
        continuation_char (by decide) (by decide) h
      obtain ⟨m, rfl⟩ := List.length_eq_one_iff.mp hlength
      rw [if_pos rfl, encodeChar_two h1 (hms m (by simp))]
      exact congrArg (_ :: ·) hrest
    rw [if_neg h1] at h
    by_cases h2 : 0xE0 ≤ k ∧ k ≤ 0xEF
    · rw [if_pos h2] at h
      obtain ⟨ms, hlength, rfl, hrest, hms, hfirst, rfl⟩ :=
        continuation_char (by split <;> decide) (by split <;> decide) h
      obtain ⟨m, m', rfl⟩ := List.length_eq_two.mp hlength
      obtain ⟨hlo, hhi⟩ := hfirst m rfl
      have hlow : k = 0xE0 → 0xA0 ≤ 0x80 + m := fun he => by simpa [he] using hlo
      have hhigh : k = 0xED → 0x80 + m ≤ 0x9F := fun he => by simpa [he] using hhi
      rw [if_neg (by decide), if_pos rfl,
        encodeChar_three h2 (hms m (by simp)) (hms m' (by simp)) hlow hhigh]
      exact congrArg (_ :: ·) hrest
    rw [if_neg h2] at h
    by_cases h3 : 0xF0 ≤ k ∧ k ≤ 0xF4
    · rw [if_pos h3] at h
      obtain ⟨ms, hlength, rfl, hrest, hms, hfirst, rfl⟩ :=
        continuation_char (by split <;> decide) (by split <;> decide) h
      obtain ⟨m, m', m'', rfl⟩ := List.length_eq_three.mp hlength
      obtain ⟨hlo, hhi⟩ := hfirst m rfl
      have hlow : k = 0xF0 → 0x90 ≤ 0x80 + m := fun he => by simpa [he] using hlo
      have hhigh : k = 0xF4 → 0x80 + m ≤ 0x8F := fun he => by simpa [he] using hhi
      rw [if_neg (by decide), if_neg (by decide), encodeChar_four h3 (hms m (by simp))
        (hms m' (by simp)) (hms m'' (by simp)) hlow hhigh]
      exact congrArg (_ :: ·) hrest
    · rw [if_neg h3] at h
      cases h

theorem encodeChars_of_decodeFrom {pos : Nat} {bytes : List UInt8} {cs : List Char}
    (h : decodeFrom pos bytes = .ok cs) : encodeChars cs = bytes := by
  induction pos, bytes using decodeFrom.induct generalizing cs with
  | case1 pos =>
    rw [decodeFrom] at h
    cases h
    rfl
  | case2 pos b rest c more hhead ih =>
    rw [decodeFrom, hhead] at h
    dsimp only at h
    cases hrest : decodeFrom (pos + more + 1) (rest.drop more) with
    | error f =>
      rw [hrest] at h
      cases h
    | ok cs' =>
      rw [hrest] at h
      cases h
      rw [encodeChars_cons, ih hrest, encodeChar_of_head hhead]
  | case3 pos b rest reason more hhead =>
    rw [decodeFrom, hhead] at h
    cases h

theorem decode_eq_ok_iff {bytes : List UInt8} {cs : List Char} :
    decode bytes = .ok cs ↔ encodeChars cs = bytes := by
  constructor
  · exact encodeChars_of_decodeFrom
  · rintro rfl
    exact decode_encodeChars cs

theorem utf8EncodeChar_eq (c : Char) : String.utf8EncodeChar c = encodeChar c := by
  have hvalid : c.toNat < 0xD800 ∨ 0xDFFF < c.toNat ∧ c.toNat < 0x110000 := c.valid
  have hval : c.val.toNat = c.toNat := rfl
  unfold encodeChar String.utf8EncodeChar
  rw [hval]
  generalize c.toNat = n at hvalid
  dsimp only
  split_ifs <;> grind

/-- What decodes is what is well-formed in the sense of the standard library. -/
theorem isValidUTF8_iff (bytes : List UInt8) :
    bytes.toByteArray.IsValidUTF8 ↔ ∃ cs, decode bytes = .ok cs := by
  have hencode (cs : List Char) : cs.utf8Encode = (encodeChars cs).toByteArray := by
    unfold List.utf8Encode encodeChars
    rw [funext utf8EncodeChar_eq]
  simp only [decode_eq_ok_iff]
  constructor
  · rintro ⟨cs, h⟩
    rw [hencode, List.toByteArray_inj] at h
    exact ⟨cs, h.symm⟩
  · rintro ⟨cs, rfl⟩
    exact ⟨cs, (hencode cs).symm⟩

end EditorLint.Utf8

namespace EditorLint

/-! ## Opening and saving -/

variable {fs : FileSystem} {cwd path : Path} {bytes : List UInt8}

theorem Encoding.encode_ofChars (cs : List Char) :
    Encoding.utf8.encode (Text.ofChars cs) = .ok (Utf8.encodeChars cs) := by
  show Encoding.encodeUtf8 (Text.ofChars cs) = _
  rw [Encoding.encodeUtf8, Utf8.encode_ofChars]
  rfl

namespace FileDocument

/-- The document at a path that holds characters is saved as their bytes, and opened again with
the same characters. -/
theorem save_chars {cs : List Char} {now emptied : FileSystem}
    (h : now.write cwd (cwd.join path) [] = .ok emptied) :
    let d : FileDocument := ⟨cwd.join path, .utf8, Text.ofChars cs⟩
    ∃ saved, d.save cwd now = (saved, .ok ()) ∧
      saved.read cwd (cwd.join path) = .ok (Utf8.encodeChars cs) ∧
      openFile saved cwd path "utf-8" = .ok d := by
  intro d
  obtain ⟨hok, hread⟩ := TextFile.write_encodable h (Encoding.encode_ofChars cs)
  refine ⟨(d.save cwd now).1, Prod.ext rfl hok, hread, ?_⟩
  have hopen : openFile (d.save cwd now).1 cwd path "utf-8" = _ := openFile_eq hread
  rw [Utf8.decode_encodeChars] at hopen
  exact hopen

/-- Saving the characters of a file leaves its bytes and every place as they are, and goes well
where the file can be opened for writing. -/
theorem save_unchanged {cs : List Char}
    (h : fs.read cwd (cwd.join path) = .ok (Utf8.encodeChars cs)) :
    let d : FileDocument := ⟨cwd.join path, .utf8, Text.ofChars cs⟩
    ((d.save cwd fs).2 = .ok () ↔ ∃ emptied, fs.write cwd d.path [] = .ok emptied) ∧
      (d.save cwd fs).1.read cwd d.path = .ok (Utf8.encodeChars cs) ∧
      ∀ place, (d.save cwd fs).1.at? place = fs.at? place := by
  intro d
  have hencode := Encoding.encode_ofChars cs
  cases hwrite : fs.write cwd d.path [] with
  | error f =>
    have hclosed : d.save cwd fs = (fs, .error f) := TextFile.write_closed hwrite
    rw [hclosed]
    exact ⟨by simp, h, fun _ => rfl⟩
  | ok emptied =>
    obtain ⟨hok, hread⟩ := TextFile.write_encodable hwrite hencode
    refine ⟨iff_of_true hok ⟨emptied, rfl⟩, hread, fun other => ?_⟩
    -- The file that is written is the one that has been read.
    obtain ⟨place, executable, hfound, -⟩ := FileSystem.read_ok_iff.mp h
    have hmay := FileSystem.mayWrite_of_alter hfound hwrite
    obtain ⟨saved, hsave, hat⟩ := TextFile.write_found hfound hmay hencode
    have hsave' : d.save cwd fs = (saved, .ok ()) := hsave
    have hthere := FileSystem.isFaithful_lookUp fs cwd (cwd.join path)
    rw [hfound] at hthere
    rw [hsave', hat]
    split
    · rename_i hother
      rw [hother]
      exact hthere.symm
    · rfl

end FileDocument

/-- In a session, a replaced text stays in memory until it is saved. -/
theorem Session.handle_replace {s : Session} {name : Text} {d : FileDocument}
    (h : s.document? name = some (.file d)) (text : Text) :
    s.handle (.replace name text) = s.withDocument name (.file (d.replaceText text)) := by
  simp only [handle, h, OpenDocument.replaceText]

theorem Session.files_handle_save {s : Session} {name : Text} {d : FileDocument}
    (h : s.document? name = some (.file d)) :
    (s.handle (.save name)).machine.files = (d.save s.machine.cwd s.machine.files).1 := by
  simp only [handle, h, OpenDocument.save]
  cases (d.save s.machine.cwd s.machine.files).2 <;> rfl

/-- A file that is not well-formed is not opened, and stays as it is.  One that is well-formed
is opened, and saving it unchanged leaves its bytes and every other place as they are.  When
characters are put in place of its text, the document has just these, and nothing on disk is
different until it is saved; then, wherever the file can be opened for writing, the save goes
well, and the file is opened again with just these characters as its text. -/
theorem reopen_saved (fs : FileSystem) (cwd path : Path) (bytes : List UInt8)
    (hread : fs.read cwd (cwd.join path) = .ok bytes) :
    (¬bytes.toByteArray.IsValidUTF8 → ∃ fault,
      FileDocument.openFile fs cwd path "utf-8" = .error (.ofUtf8 fault) ∧
      ∀ t : Terminal, t.machine.files = fs → t.machine.cwd = cwd →
        t.run (Command.openDocument path) = (.error (.failure (.ofUtf8 fault)), t)) ∧
    (bytes.toByteArray.IsValidUTF8 → ∃ d, FileDocument.openFile fs cwd path "utf-8" = .ok d ∧
      d.path = cwd.join path ∧
      ((d.save cwd fs).2 = .ok () ↔ ∃ emptied, fs.write cwd d.path [] = .ok emptied) ∧
      (d.save cwd fs).1.read cwd d.path = .ok bytes ∧
      (∀ place, (d.save cwd fs).1.at? place = fs.at? place) ∧
      ∀ cs : List Char,
        let edited := d.replaceText (Text.ofChars cs)
        edited.text = Text.ofChars cs ∧
        (∀ (s : Session) name, s.document? name = some (.file d) →
          let s' := s.handle (.replace name (Text.ofChars cs))
          s'.machine = s.machine ∧ s'.document? name = some (.file edited) ∧
            (s'.handle (.save name)).machine.files =
              (edited.save s.machine.cwd s.machine.files).1) ∧
        ∀ now emptied, now.write cwd d.path [] = .ok emptied →
          ∃ saved reopened, edited.save cwd now = (saved, .ok ()) ∧
            saved.read cwd d.path = .ok (Utf8.encodeChars cs) ∧
            FileDocument.openFile saved cwd path "utf-8" = .ok reopened ∧
            reopened.text = Text.ofChars cs) := by
  have hopen := FileDocument.openFile_eq hread
  -- Valid bytes are those that decode, and they are then the encoding of what they decode to.
  rw [Utf8.isValidUTF8_iff]
  constructor
  · intro hinvalid
    cases hdecode : Utf8.decode bytes with
    | ok cs => exact absurd ⟨cs, hdecode⟩ hinvalid
    | error fault =>
      rw [hdecode] at hopen
      refine ⟨fault, hopen, ?_⟩
      rintro t rfl rfl
      exact Command.run_openDocument_error hopen
  · rintro ⟨cs, hdecode⟩
    rw [hdecode] at hopen
    obtain rfl := Utf8.decode_eq_ok_iff.mp hdecode
    obtain ⟨hok, hsame, hplaces⟩ := FileDocument.save_unchanged hread
    refine ⟨_, hopen, rfl, hok, hsame, hplaces, fun cs' => ⟨rfl, fun s name hd => ?_, ?_⟩⟩
    case refine_2 =>
      intro now emptied hwrite
      obtain ⟨saved, hsave, hbytes, hreopen⟩ := FileDocument.save_chars hwrite
      exact ⟨saved, _, hsave, hbytes, hreopen, rfl⟩
    have hreplaced : (s.handle (.replace name (Text.ofChars cs'))).document? name =
        some (.file ⟨cwd.join path, .utf8, Text.ofChars cs'⟩) := by
      rw [Session.handle_replace hd, Session.document?_withDocument, if_pos rfl, hd]
      rfl
    have hmachine : (s.handle (.replace name (Text.ofChars cs'))).machine = s.machine := by
      rw [Session.handle_replace hd]
      rfl
    refine ⟨hmachine, hreplaced, ?_⟩
    rw [Session.files_handle_save hreplaced, hmachine]
    rfl

/-- A mark, both line ends and a zero come through, as does a text that takes their place, and a
byte that begins no character keeps the file closed. -/
theorem reopen_saved_small :
    let cwd : Path := ⟨.slash, []⟩
    let path : Path := ⟨.relative, ["a"]⟩
    let disk (bytes : List UInt8) : FileSystem :=
      .ofNodes [([], .directory), (["a"], .file bytes false)]
    let mixed : List UInt8 := [0xEF, 0xBB, 0xBF, 0x61, 0x0D, 0x0A, 0x00, 0xC3, 0xA9, 0x0D]
    let put : List Char := ['\uFEFF', 'b', '\r', '\x00', 'é']
    ((disk mixed).read cwd (cwd.join path) = .ok mixed ∧ mixed.toByteArray.IsValidUTF8 ∧
      ∃ d, FileDocument.openFile (disk mixed) cwd path "utf-8" = .ok d ∧
        (d.save cwd (disk mixed)).2 = .ok () ∧
        (d.save cwd (disk mixed)).1.read cwd d.path = .ok mixed ∧
        ∃ saved reopened,
          (d.replaceText (Text.ofChars put)).save cwd (disk mixed) = (saved, .ok ()) ∧
          saved.read cwd d.path =
            .ok [0xEF, 0xBB, 0xBF, 0x62, 0x0D, 0x00, 0xC3, 0xA9] ∧
          FileDocument.openFile saved cwd path "utf-8" = .ok reopened ∧
          reopened.text = Text.ofChars put) ∧
    (disk [0xFF]).read cwd (cwd.join path) = .ok [0xFF] ∧
      ¬([0xFF] : List UInt8).toByteArray.IsValidUTF8 ∧
      ∃ fault, FileDocument.openFile (disk [0xFF]) cwd path "utf-8" = .error (.ofUtf8 fault) := by
  intro cwd path disk mixed put
  have hvalid : mixed.toByteArray.IsValidUTF8 := (Utf8.isValidUTF8_iff mixed).mpr
    ⟨['\uFEFF', 'a', '\r', '\n', '\x00', 'é', '\r'], Utf8.decode_eq_ok_iff.mpr (by decide)⟩
  have hinvalid : ¬([0xFF] : List UInt8).toByteArray.IsValidUTF8 := by
    rw [Utf8.isValidUTF8_iff, Utf8.decode, Utf8.decodeFrom]
    simp [Utf8.head, Utf8.shape]
  obtain ⟨d, hopen, hpath, hok, hsame, -, hedit⟩ :=
    (reopen_saved (disk mixed) cwd path mixed rfl).2 hvalid
  have hwrite : ∃ emptied, (disk mixed).write cwd d.path [] = .ok emptied := by
    rw [hpath]
    exact ⟨_, rfl⟩
  obtain ⟨emptied, hemptied⟩ := hwrite
  obtain ⟨-, -, hsaved⟩ := hedit put
  obtain ⟨saved, reopened, hsave, hbytes, hreopen, htext⟩ := hsaved _ _ hemptied
  have hput : Utf8.encodeChars put = [0xEF, 0xBB, 0xBF, 0x62, 0x0D, 0x00, 0xC3, 0xA9] := by decide
  rw [hput] at hbytes
  obtain ⟨fault, hclosed, -⟩ := (reopen_saved (disk [0xFF]) cwd path [0xFF] rfl).1 hinvalid
  exact ⟨⟨rfl, hvalid, d, hopen, hok.mpr ⟨emptied, hemptied⟩, hsame,
    saved, reopened, hsave, hbytes, hreopen, htext⟩, rfl, hinvalid, fault, hclosed⟩

end EditorLint

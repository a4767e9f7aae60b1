import Galley.Cache
import Galley.Proofs.Files
import Mathlib.Tactic

/-!
The names of cache entries and of pictures: that they are names, and what they tell apart.

* `isName_entryName`, `isName_unfinishedName`, `isName_assetName`: one step down in a path each;
* `unfinishedName_ne_entryName`: a file that is not finished is no entry;
* `assetName_injective`: pictures of diagrams with different names have different places;
* `eq_of_keyOctets_eq`: what is digested determines a diagram without null characters;
* `document_eq_of_entryName_eq`: such diagrams share an entry only if they share their document;
* `entryName_collision`: with null characters the marks between the parts can be forged.
-/

namespace Galley

/-! ### Lists up to a mark -/

section Mark

variable {α : Type} {a : α} {xs xs' ys ys' : List α}

lemma append_eq_nil_of_mark (h : a ∉ xs) {as : List α} (hxs : xs = xs' ++ as)
    (hys : a :: ys = as ++ a :: ys') : as = [] := by
  cases as with
  | nil => rfl
  | cons b as =>
      obtain ⟨rfl, -⟩ := List.cons.inj hys
      simp [hxs] at h

/-- A mark that does not occur in front of it cuts a list in one way. -/
lemma append_mark_inj (h : a ∉ xs) (h' : a ∉ xs') (heq : xs ++ a :: ys = xs' ++ a :: ys') :
    xs = xs' ∧ ys = ys' := by
  rcases List.append_eq_append_iff.mp heq with ⟨as, hxs, hys⟩ | ⟨as, hxs, hys⟩
  · obtain rfl := append_eq_nil_of_mark h' hxs hys
    exact ⟨by simpa using hxs.symm, by simpa using hys⟩
  · obtain rfl := append_eq_nil_of_mark h hxs hys
    exact ⟨by simpa using hxs, by simpa using hys.symm⟩

end Mark

/-! ### Octets of texts -/

lemma utf8_injective : Function.Injective utf8 := by
  intro s t h
  have hencode : s.utf8Encode = t.utf8Encode := congrArg List.toByteArray h
  have hdecode := congrArg ByteArray.utf8Decode? hencode
  rw [List.utf8Decode?_utf8Encode, List.utf8Decode?_utf8Encode] at hdecode
  simpa using hdecode

lemma zero_eq_ofNat (n : Nat) : 0 = UInt8.ofNat n ↔ n % 256 = 0 := by
  rw [eq_comm, ← UInt8.toNat_inj]
  simp

/-- Only the null character has a zero among its octets. -/
lemma zero_mem_utf8EncodeChar {c : Char} (h : 0 ∈ String.utf8EncodeChar c) : c = '\x00' := by
  have hlt : c.val.toNat < 0x110000 := by
    rcases c.valid with hlow | hhigh
    · exact hlow.trans (by decide)
    · exact hhigh.2
  have hzero : c.val.toNat = 0 := by
    rw [String.utf8EncodeChar] at h
    split_ifs at h <;>
      simp only [List.mem_cons, List.not_mem_nil, or_false, zero_eq_ofNat] at h <;> omega
  exact Char.ext (UInt32.toNat_inj.mp hzero)

lemma zero_notMem_utf8 {t : Text} (h : '\x00' ∉ t) : 0 ∉ utf8 t := by
  intro hzero
  obtain ⟨c, hc, hmem⟩ := List.mem_flatMap.mp hzero
  exact h (zero_mem_utf8EncodeChar hmem ▸ hc)

/-! ### Extensions and digits -/

lemma extension_cases (d : Diagram) :
    d.extension = "png".toList ∨ d.extension = "jpg".toList ∨ d.extension = "webp".toList ∨
      d.extension = "svg".toList := by
  rw [Diagram.extension, requestedExtension]
  cases h : formatExtensions.lookup (foldWord (Text.trim (d.options.format.getD []))) with
  | none => exact Or.inl rfl
  | some extension =>
      obtain ⟨before, after, heq, -⟩ := List.lookup_eq_some_iff.mp h
      have hmem : extension ∈ formatExtensions.map Prod.snd := by simp [heq]
      simp [formatExtensions] at hmem
      rcases hmem with rfl | rfl | rfl | rfl | rfl | rfl <;> simp

/-- A character that no extension has. -/
lemma notMem_extension {c : Char} (h : c ∉ "pngjwebsv".toList) (d : Diagram) :
    c ∉ d.extension := by
  intro hc
  refine h ?_
  rcases extension_cases d with heq | heq | heq | heq <;> rw [heq] at hc <;> revert hc <;> simp <;>
    grind

lemma hexDigit_mem {n : Nat} (h : n < 16) : hexDigit n ∈ "0123456789abcdef".toList := by
  revert n
  decide

lemma hexDigits_mem {c : Char} {width n : Nat} (h : c ∈ hexDigits width n) :
    c ∈ "0123456789abcdef".toList := by
  rw [hexDigits, List.mem_map] at h
  obtain ⟨i, -, rfl⟩ := h
  exact hexDigit_mem (Nat.mod_lt _ (by decide))

lemma mem_key {c : Char} {d : Diagram} (h : c ∈ d.key) : c ∈ "0123456789abcdef".toList := by
  obtain ⟨b, -, hb⟩ := List.mem_flatMap.mp h
  exact hexDigits_mem hb

lemma notMem_key {c : Char} (h : c ∉ "0123456789abcdef".toList) (d : Diagram) : c ∉ d.key :=
  fun hc => h (mem_key hc)

/-! ### Names -/

/-- A stem and an extension are a name if there is no slash in the stem. -/
lemma isName_dotted {stem : Text} (h : '/' ∉ stem) (d : Diagram) :
    IsName (stem ++ '.' :: d.extension) := by
  have hlength : 3 < (stem ++ '.' :: d.extension).length := by
    rcases extension_cases d with heq | heq | heq | heq <;> rw [heq] <;> simp
  refine ⟨fun heq => ?_, fun hslash => ?_, fun heq => ?_, fun heq => ?_⟩
  · simp [heq] at hlength
  · rcases List.mem_append.mp hslash with hslash | hslash
    · exact h hslash
    · rcases List.mem_cons.mp hslash with heq | hslash
      · exact absurd heq (by decide)
      · exact notMem_extension (by decide) d hslash
  · simp [heq] at hlength
  · simp [heq, Path.parentName] at hlength

lemma isName_entryName (d : Diagram) : IsName d.entryName :=
  isName_dotted (notMem_key (by decide) d) d

lemma isName_assetName {d : Diagram} (h : '/' ∉ d.id) : IsName d.assetName := isName_dotted h d

lemma isName_outputFolder : IsName Diagram.outputFolder := by
  constructor <;> decide

/-- The folder for work is a step below the build folder. -/
lemma isName_workFolder : IsName "tikz-work".toList := by
  constructor <;> decide

/-- The place of a picture is a step below the folder of pictures. -/
lemma div_assetPath {d : Diagram} (h : '/' ∉ d.id) (build : Path) :
    build / d.assetPath = build / Diagram.outputFolder / d.assetName :=
  Path.div_slash isName_outputFolder (isName_assetName h) build

lemma mem_unfinishedName (key : Text) (n : Nat) : '-' ∈ Cache.unfinishedName key n := by
  simp [Cache.unfinishedName]

lemma isName_unfinishedName (d : Diagram) (n : Nat) : IsName (Cache.unfinishedName d.key n) := by
  have hmem := mem_unfinishedName d.key n
  refine ⟨fun heq => ?_, fun hslash => ?_, fun heq => ?_, fun heq => ?_⟩
  · simp [heq] at hmem
  · simp only [Cache.unfinishedName, List.mem_cons, List.mem_append] at hslash
    rcases hslash with hslash | hslash | hslash | hslash | hslash
    · exact absurd hslash (by decide)
    · exact notMem_key (by decide) d (List.mem_of_mem_take hslash)
    · exact absurd hslash (by decide)
    · exact absurd (ofNat_digits hslash) (by decide)
    · exact absurd hslash (by decide)
  · simp [heq] at hmem
  · simp [heq, Path.parentName] at hmem

lemma unfinishedName_injective (key : Text) : Function.Injective (Cache.unfinishedName key) := by
  intro n m h
  have htail := List.append_cancel_left (List.cons.inj h).2
  exact ofNat_injective (List.append_cancel_right (List.cons.inj htail).2)

/-- A file that is not finished is no entry. -/
lemma unfinishedName_ne_entryName (key : Text) (n : Nat) (d : Diagram) :
    Cache.unfinishedName key n ≠ d.entryName := by
  intro heq
  have hmem := mem_unfinishedName key n
  rw [heq, Diagram.entryName, List.mem_append, List.mem_cons] at hmem
  rcases hmem with hmem | hmem | hmem
  · exact notMem_key (by decide) d hmem
  · exact absurd hmem (by decide)
  · exact notMem_extension (by decide) d hmem

/-- A name with a dot and an extension tells the stem and the extension. -/
lemma dotted_inj {stem stem' : Text} {d d' : Diagram}
    (h : stem ++ '.' :: d.extension = stem' ++ '.' :: d'.extension) :
    stem = stem' ∧ d.extension = d'.extension := by
  have hreverse := congrArg List.reverse h
  simp only [List.reverse_append, List.reverse_cons, List.append_assoc, List.singleton_append]
    at hreverse
  have hdot : ∀ d : Diagram, '.' ∉ d.extension.reverse := fun d hmem =>
    notMem_extension (by decide) d (List.mem_reverse.mp hmem)
  obtain ⟨hextension, hstem⟩ := append_mark_inj (hdot d) (hdot d') hreverse
  exact ⟨List.reverse_injective hstem, List.reverse_injective hextension⟩

/-- Pictures of diagrams with different names have different places. -/
lemma assetName_injective {d d' : Diagram} (h : d.assetName = d'.assetName) : d.id = d'.id :=
  (dotted_inj h).1

/-! ### What a name tells -/

section Key

variable {a b : Diagram}

lemma keyOctets_eq (d : Diagram) :
    d.keyOctets = utf8 d.source ++ 0 ::
      match d.options.preamble with
      | some preamble => utf8 "preamble".toList ++ 0 :: (utf8 preamble ++ 0 ::
          (utf8 "format".toList ++ 0 :: utf8 (d.options.format.getD [])))
      | none => utf8 "format".toList ++ 0 :: utf8 (d.options.format.getD []) := by
  rw [Diagram.keyOctets]
  cases d.options.preamble <;> simp [Diagram.preambleMark, Diagram.formatMark]

/-- What is digested determines the parts of a diagram without null characters in its source and its
preamble. -/
lemma eq_of_keyOctets_eq (ha : '\x00' ∉ a.source) (hb : '\x00' ∉ b.source)
    (ha' : '\x00' ∉ a.options.preamble.getD []) (hb' : '\x00' ∉ b.options.preamble.getD [])
    (h : a.keyOctets = b.keyOctets) :
    a.source = b.source ∧ a.options.preamble = b.options.preamble ∧
      a.options.format.getD [] = b.options.format.getD [] := by
  rw [keyOctets_eq, keyOctets_eq] at h
  obtain ⟨hsource, hrest⟩ := append_mark_inj (zero_notMem_utf8 ha) (zero_notMem_utf8 hb) h
  refine ⟨utf8_injective hsource, ?_⟩
  -- the marks begin with different letters
  cases hpa : a.options.preamble with
  | none =>
      cases hpb : b.options.preamble with
      | none =>
          rw [hpa, hpb] at hrest
          exact ⟨rfl, utf8_injective (List.cons.inj (List.append_cancel_left hrest)).2⟩
      | some preamble =>
          rw [hpa, hpb] at hrest
          exact absurd (congrArg List.head? hrest) (by simp; decide)
  | some preamble =>
      cases hpb : b.options.preamble with
      | none =>
          rw [hpa, hpb] at hrest
          exact absurd (congrArg List.head? hrest) (by simp; decide)
      | some preamble' =>
          rw [hpa] at ha' hrest
          rw [hpb] at hb' hrest
          obtain ⟨hpreamble, hformat⟩ :=
            append_mark_inj (zero_notMem_utf8 ha') (zero_notMem_utf8 hb')
              (List.cons.inj (List.append_cancel_left hrest)).2
          exact ⟨congrArg some (utf8_injective hpreamble),
            utf8_injective (List.cons.inj (List.append_cancel_left hformat)).2⟩

lemma entryName_congr (hoctets : a.keyOctets = b.keyOctets)
    (hextension : a.extension = b.extension) : a.entryName = b.entryName := by
  rw [Diagram.entryName, Diagram.entryName, Diagram.key, Diagram.key, hoctets, hextension]

lemma document_congr (hsource : a.source = b.source)
    (hpreamble : a.options.preamble = b.options.preamble) : a.document = b.document := by
  rw [Diagram.document, Diagram.document, hsource, hpreamble]

/-- Diagrams without null characters share an entry only if they share their document, where their
digests do not collide. -/
theorem document_eq_of_entryName_eq (ha : '\x00' ∉ a.source) (hb : '\x00' ∉ b.source)
    (ha' : '\x00' ∉ a.options.preamble.getD []) (hb' : '\x00' ∉ b.options.preamble.getD [])
    (hdigest : digestText a.keyOctets = digestText b.keyOctets → a.keyOctets = b.keyOctets)
    (h : a.entryName = b.entryName) : a.document = b.document := by
  obtain ⟨hkey, -⟩ := dotted_inj h
  obtain ⟨hsource, hpreamble, -⟩ := eq_of_keyOctets_eq ha hb ha' hb' (hdigest hkey)
  exact document_congr hsource hpreamble

/-- A missing format and an empty one, and scales, make no difference to the entry. -/
theorem document_eq_of_entryName_eq_scaled :
    let a : Diagram := ⟨"tikz-0".toList, "x".toList, { preamble := some "p".toList }⟩
    let b : Diagram := ⟨"tikz-1".toList, "x".toList,
      { scale := some "2".toList, preamble := some "p".toList, format := some [] }⟩
    ('\x00' ∉ a.source ∧ '\x00' ∉ b.source ∧ '\x00' ∉ a.options.preamble.getD [] ∧
      '\x00' ∉ b.options.preamble.getD []) ∧
      (digestText a.keyOctets = digestText b.keyOctets → a.keyOctets = b.keyOctets) ∧
      a.entryName = b.entryName ∧ a.document = b.document := by
  intro a b
  have hoctets : a.keyOctets = b.keyOctets := by decide +kernel
  have hentry : a.entryName = b.entryName := entryName_congr hoctets (by decide)
  exact ⟨⟨by decide, by decide, by decide, by decide⟩, fun _ => hoctets, hentry,
    document_eq_of_entryName_eq (by decide) (by decide) (by decide) (by decide) (fun _ => hoctets)
      hentry⟩

/-- With null characters the marks between the parts can be forged: a preamble may end with what is
the start of the format of another diagram, so that the same octets are digested for both. -/
theorem entryName_collision :
    let a : Diagram := ⟨"tikz-0".toList, "x".toList,
      { preamble := some "p".toList, format := some "q\x00format\x00png".toList }⟩
    let b : Diagram := ⟨"tikz-1".toList, "x".toList,
      { preamble := some "p\x00format\x00q".toList, format := some "png".toList }⟩
    a.keyOctets = b.keyOctets ∧ a.entryName = b.entryName ∧ a.document ≠ b.document := by
  intro a b
  have hoctets : a.keyOctets = b.keyOctets := by decide +kernel
  exact ⟨hoctets, entryName_congr hoctets (by decide +kernel), by decide +kernel⟩

end Key

end Galley

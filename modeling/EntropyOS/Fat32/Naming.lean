import EntropyOS.Fat32.Listing

/-!
# Names of at most eight and three characters

Such a name comes back from the eleven bytes of a directory entry as it was, but
in capitals.
-/

namespace EntropyOS.Fat32

open EntropyOS.Foundation

def NameChar (c : UInt8) : Prop := 0x21 ≤ c ∧ c ≤ 0x7E ∧ c ≠ 0x2E

/-- An 8.3 name; without an extension the list is empty. -/
structure ShortName where
  base : List UInt8
  extension : List UInt8
  base_ne_nil : base ≠ []
  base_length : base.length ≤ 8
  extension_length : extension.length ≤ 3
  base_chars : ∀ c ∈ base, NameChar c
  extension_chars : ∀ c ∈ extension, NameChar c

def ShortName.text (name : ShortName) : List UInt8 :=
  if name.extension = [] then name.base else name.base ++ 0x2E :: name.extension

/-! ## Capitals -/

@[simp] theorem upcase_upcase (c : UInt8) : upcase (upcase c) = upcase c := by
  unfold upcase
  split <;> grind

theorem upcase_eq_iff {c mark : UInt8} (hlow : mark < 0x41) :
    upcase c = mark ↔ c = mark := by
  unfold upcase
  split <;> grind

@[simp] theorem upcase_eq_zero (c : UInt8) : upcase c = 0 ↔ c = 0 :=
  upcase_eq_iff (by decide)

@[simp] theorem upcase_eq_dot (c : UInt8) : upcase c = 0x2E ↔ c = 0x2E :=
  upcase_eq_iff (by decide)

theorem NameChar.ne_zero {c : UInt8} (h : NameChar c) : c ≠ 0 := by
  rintro rfl
  exact absurd h.1 (by decide)

theorem NameChar.upcase {c : UInt8} (h : NameChar c) : Fat32.upcase c ≠ 0x20 := by
  rw [ne_eq, upcase_eq_iff (by decide)]
  rintro rfl
  exact absurd h.1 (by decide)

theorem nameBase_map_upcase (name : List UInt8) (room : Nat) :
    nameBase (name.map upcase) room =
      ((nameBase name room).1, (nameBase name room).2.map upcase) := by
  induction name generalizing room with
  | nil => rfl
  | cons c rest ih =>
      cases room with
      | zero => rfl
      | succ room =>
          simp only [List.map_cons, nameBase, upcase_eq_zero, upcase_eq_dot, ih,
            upcase_upcase]
          split
          · rfl
          · rfl

theorem nameExtension_map_upcase (name : List UInt8) (room : Nat) :
    nameExtension (name.map upcase) room = nameExtension name room := by
  induction name generalizing room with
  | nil => rfl
  | cons c rest ih =>
      cases room with
      | zero => rfl
      | succ room =>
          simp only [List.map_cons, nameExtension, upcase_eq_zero, ih, upcase_upcase]

theorem nameToFat_map_upcase (name : List UInt8) :
    nameToFat (name.map upcase) = nameToFat name := by
  rw [nameToFat, nameToFat, nameBase_map_upcase]
  generalize nameBase name 8 = r
  obtain ⟨base, left⟩ := r
  cases left with
  | nil => rfl
  | cons c rest =>
      simp only [List.map_cons, upcase_eq_dot, nameExtension_map_upcase]

/-! ## The entry of a name -/

theorem nameBase_eq {base : List UInt8} (hchars : ∀ c ∈ base, NameChar c) {room : Nat}
    (hroom : base.length ≤ room) {left : List UInt8}
    (hleft : left.head? = some 0x2E ∨ left = []) :
    nameBase (base ++ left) room = (base.map upcase, left) := by
  induction base generalizing room with
  | nil =>
      rcases hleft with hdot | rfl
      · obtain ⟨rest, rfl⟩ : ∃ rest, left = 0x2E :: rest := by
          cases left with
          | nil => simp at hdot
          | cons c rest => exact ⟨rest, by simpa using hdot⟩
        cases room with
        | zero => rfl
        | succ room => rfl
      · rfl
  | cons c base ih =>
      obtain ⟨room, rfl⟩ : ∃ n, room = n + 1 := ⟨room - 1, by simp at hroom; omega⟩
      have hc := hchars c (by simp)
      have hplain : ¬ (c = 0 ∨ c = 0x2E) := not_or.mpr ⟨hc.ne_zero, hc.2.2⟩
      rw [List.cons_append, nameBase, if_neg hplain,
        ih (fun d hd => hchars d (List.mem_cons_of_mem _ hd)) (by simpa using hroom)]
      rfl

theorem nameExtension_eq {extension : List UInt8} (hchars : ∀ c ∈ extension, NameChar c)
    {room : Nat} (hroom : extension.length ≤ room) :
    nameExtension extension room = extension.map upcase := by
  induction extension generalizing room with
  | nil => rfl
  | cons c rest ih =>
      obtain ⟨room, rfl⟩ : ∃ n, room = n + 1 := ⟨room - 1, by simp at hroom; omega⟩
      have hc : c ≠ 0 := (hchars c (by simp)).ne_zero
      rw [nameExtension, if_neg hc, List.map_cons,
        ih (fun d hd => hchars d (List.mem_cons_of_mem _ hd)) (by simpa using hroom)]

def padded (size : Nat) (field : List UInt8) : List UInt8 :=
  field ++ List.replicate (size - field.length) 0x20

theorem length_padded {size : Nat} {field : List UInt8} (h : field.length ≤ size) :
    (padded size field).length = size := by
  rw [padded, List.length_append, List.length_replicate]
  omega

theorem getD_padded (size : Nat) (field : List UInt8) (k : Nat) :
    (padded size field).getD k 0x20 = field.getD k 0x20 := by
  rw [padded, List.getD_eq_getElem?_getD, List.getD_eq_getElem?_getD, List.getElem?_append]
  split
  · rfl
  · next hk =>
      rw [List.getElem?_eq_none (l := field) (by omega), List.getElem?_replicate]
      split
      · rfl
      · rfl

theorem takeWhile_padded (size : Nat) {field : List UInt8} (h : ∀ c ∈ field, c ≠ 0x20) :
    (padded size field).takeWhile (· ≠ 0x20) = field := by
  rw [padded, List.takeWhile_append_of_pos (by simpa using h)]
  simp

section ShortName

variable (name : ShortName)

def ShortName.upBase : List UInt8 := name.base.map upcase

def ShortName.upExtension : List UInt8 := name.extension.map upcase

theorem ShortName.nameToFat_text (k : Fin 11) :
    nameToFat name.text k =
      if k.1 < 8 then name.upBase.getD k 0x20 else name.upExtension.getD (k - 8) 0x20 := by
  rw [nameToFat, ShortName.text]
  by_cases hnone : name.extension = []
  · have hbase := nameBase_eq name.base_chars name.base_length (.inr rfl)
    rw [List.append_nil] at hbase
    rw [if_pos hnone, hbase, upExtension, hnone]
    simp [upBase, Fin.lt_def]
  · have hbase := nameBase_eq name.base_chars name.base_length
      (show (0x2E :: name.extension).head? = some 0x2E ∨ _ from .inl rfl)
    rw [if_neg hnone, hbase]
    simp [nameExtension_eq name.extension_chars name.extension_length, upBase,
      upExtension, Fin.lt_def]

theorem ShortName.ofFn_nameToFat :
    List.ofFn (nameToFat name.text) =
      padded 8 name.upBase ++ padded 3 name.upExtension := by
  have hbase : (padded 8 name.upBase).length = 8 :=
    length_padded (by simpa [upBase] using name.base_length)
  have hextension : (padded 3 name.upExtension).length = 3 :=
    length_padded (by simpa [upExtension] using name.extension_length)
  refine List.ext_getElem (by simp [hbase, hextension]) fun k hk hk' => ?_
  rw [List.getElem_ofFn, name.nameToFat_text]
  by_cases hlow : k < 8
  · rw [if_pos hlow, List.getElem_append_left (by omega), List.getElem_eq_getD 0x20,
      getD_padded]
  · rw [if_neg hlow, List.getElem_append_right (by omega), List.getElem_eq_getD 0x20,
      getD_padded]
    simp only [hbase]

theorem ShortName.map_upcase_text :
    name.text.map upcase =
      if name.extension = [] then name.upBase
      else name.upBase ++ 0x2E :: name.upExtension := by
  rw [ShortName.text]
  split
  · rfl
  · rw [List.map_append]
    rfl

theorem ShortName.listedName_eq :
    listedName (nameToFat name.text) = name.text.map upcase := by
  have hbase : (padded 8 name.upBase).length = 8 :=
    length_padded (by simpa [upBase] using name.base_length)
  have hplain : ∀ c ∈ name.upBase, c ≠ 0x20 := by
    intro c hc
    obtain ⟨d, hd, rfl⟩ := List.mem_map.mp hc
    exact (name.base_chars d hd).upcase
  have hplain' : ∀ c ∈ name.upExtension, c ≠ 0x20 := by
    intro c hc
    obtain ⟨d, hd, rfl⟩ := List.mem_map.mp hc
    exact (name.extension_chars d hd).upcase
  have hdot : nameToFat name.text 8 = 0x20 ↔ name.extension = [] := by
    rw [name.nameToFat_text, if_neg (by decide)]
    cases hextension : name.extension with
    | nil => simp [upExtension, hextension]
    | cons c rest =>
        refine iff_of_false ?_ (by simp)
        rw [upExtension, hextension]
        exact (name.extension_chars c (by simp [hextension])).upcase
  rw [listedName, name.ofFn_nameToFat, List.take_left' hbase, List.drop_left' hbase,
    takeWhile_padded 8 hplain, takeWhile_padded 3 hplain', name.map_upcase_text]
  exact if_congr hdot rfl rfl

theorem ShortName.length_text : name.text.length ≤ 12 := by
  have hbase := name.base_length
  have hextension := name.extension_length
  rw [ShortName.text]
  split
  · omega
  · rw [List.length_append, List.length_cons]
    omega

/--
An 8.3 name is listed in capitals and fits the buffer with its NUL, and two names
get the same entry only if they differ in nothing but their case.
-/
theorem short_names_round_trip :
    listedName (nameToFat name.text) = name.text.map upcase ∧
    (listedName (nameToFat name.text)).length + 1 ≤ 13 ∧
    ∀ other : ShortName, nameToFat name.text = nameToFat other.text ↔
      name.text.map upcase = other.text.map upcase := by
  refine ⟨name.listedName_eq, ?_, fun other => ⟨fun h => ?_, fun h => ?_⟩⟩
  · have hlength := name.length_text
    rw [name.listedName_eq, List.length_map]
    omega
  · rw [← name.listedName_eq, h, other.listedName_eq]
  · rw [← nameToFat_map_upcase, h, nameToFat_map_upcase]

end ShortName

end EntropyOS.Fat32

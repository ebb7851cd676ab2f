import EntropyOS.Fat32.Allocation

/-!
# Directories

A directory is read as one list of places, cluster after cluster.  The search
loops of the driver become searches in that list, and on an orderly directory
they find what is there.
-/

namespace EntropyOS.Fat32

open EntropyOS.Foundation

abbrev Place := Nat × Nat

def placesFrom (cluster i count : Nat) : List Place :=
  (List.range' i count).map fun k => (cluster, k)

/-- The places of a directory with the clusters `l`. -/
def places (l : List Nat) : List Place := l.flatMap fun c => placesFrom c 0 128

def Volume.entry (v : Volume) (p : Place) : DirEntry := entryAt (v.data p.1) p.2

/-- The slot that the driver remembers for a place. -/
def Volume.slotAt (v : Volume) (p : Place) : Slot := ⟨p.1, p.2, v.data p.1⟩

def DirEntry.InUse (entry : DirEntry) : Prop := ¬ entry.IsEnd ∧ ¬ entry.IsDeleted

instance (entry : DirEntry) : Decidable entry.InUse :=
  inferInstanceAs (Decidable (_ ∧ _))

theorem mem_places {l : List Nat} {p : Place} :
    p ∈ places l ↔ p.1 ∈ l ∧ p.2 < 128 := by
  obtain ⟨c, i⟩ := p
  simp only [places, placesFrom, List.mem_flatMap, List.mem_map,
    List.mem_range'_1, Prod.mk.injEq]
  constructor
  · rintro ⟨d, hd, k, hk, rfl, rfl⟩
    exact ⟨hd, by omega⟩
  · rintro ⟨hc, hi⟩
    exact ⟨c, hc, i, by omega, rfl, rfl⟩

theorem places_cons (c : Nat) (l : List Nat) :
    places (c :: l) = placesFrom c 0 128 ++ places l := by
  simp [places]

theorem placesFrom_succ (c i count : Nat) :
    placesFrom c i (count + 1) = (c, i) :: placesFrom c (i + 1) count := by
  simp [placesFrom, List.range'_succ]

theorem places_nodup {l : List Nat} (h : l.Nodup) : (places l).Nodup := by
  rw [places, List.nodup_flatMap]
  constructor
  · intro c _
    exact List.Nodup.map (fun i j hij => (Prod.mk.inj hij).2) List.nodup_range'
  · refine h.imp ?_
    intro c d hne p hp hq
    simp only [placesFrom, List.mem_map] at hp hq
    obtain ⟨i, -, rfl⟩ := hp
    obtain ⟨j, -, hj⟩ := hq
    exact hne (Prod.mk.inj hj).1.symm

/-! ## Looking a name up -/

/-- The search of `fat32_find_entry`. -/
def Volume.lookup (v : Volume) (name : Name) : List Place → Option Place
  | [] => none
  | p :: rest =>
      if (v.entry p).IsEnd then none
      else if (v.entry p).IsDeleted then v.lookup name rest
      else if (v.entry p).HasAttr attrVolumeId then v.lookup name rest
      else if (v.entry p).name = name then some p
      else v.lookup name rest

theorem Volume.lookup_placesFrom (v : Volume) (name : Name) (c i count : Nat)
    (rest : List Place) :
    v.lookup name (placesFrom c i count ++ rest) =
      match findIn name (v.data c) count i with
      | .found k => some (c, k)
      | .stop _ => none
      | .more _ => v.lookup name rest := by
  induction count generalizing i with
  | zero => rfl
  | succ count ih =>
      simp only [placesFrom_succ, List.cons_append, Volume.lookup, ih,
        Volume.entry, findIn]
      split_ifs <;> rfl

/-- The answer of `fat32_find_entry` for a place. -/
def Volume.locate (v : Volume) (p : Place) : Located := ⟨v.entry p, p.1, p.2⟩

theorem findEntry_executes {v : Volume} (hlayout : v.fs.Layout)
    {first last : Nat} {l : List Nat} (hwalk : Walk v.link Live first l last)
    (hrange : ∀ c ∈ l, v.fs.InRange c) (name : Name) :
    Executes v (findEntry first name)
      ((v.lookup name (places l)).map v.locate) v := by
  induction hwalk with
  | stop hstop =>
      rw [findEntry]
      exact Runs.if_neg hstop (Runs.pure v none)
  | @step c last l hlive _ ih =>
      have hc := hrange c (by simp)
      rw [findEntry, places_cons, Volume.lookup_placesFrom]
      refine Runs.if_pos hlive ?_
      refine Runs.bind (readCluster_executes v hc) ?_
      refine Runs.bind (getFs_executes v) ?_
      rw [hlayout.entriesPerCluster_eq]
      cases findIn name (v.data c) 128 0 with
      | found i => exact Runs.pure _ _
      | stop => exact Runs.pure _ _
      | more =>
          refine Runs.bind (getNextCluster_executes v hc.2) ?_
          exact ih fun d hd => hrange d (List.mem_cons_of_mem _ hd)

/-- Names are unique and nothing follows the end mark. -/
structure Volume.Orderly (v : Volume) (ps : List Place) : Prop where
  unique : ∀ p ∈ ps, ∀ q ∈ ps, (v.entry p).InUse → (v.entry q).InUse →
    (v.entry p).name = (v.entry q).name → p = q
  ended : ps.Pairwise fun p q => (v.entry p).IsEnd → ¬ (v.entry q).InUse

theorem Volume.Orderly.tail {v : Volume} {p : Place} {ps : List Place}
    (h : v.Orderly (p :: ps)) : v.Orderly ps where
  unique q hq r hr :=
    h.unique q (List.mem_cons_of_mem _ hq) r (List.mem_cons_of_mem _ hr)
  ended := (List.pairwise_cons.mp h.ended).2

/-- The entry that `fat32_find_entry` answers with for this name. -/
def Volume.Named (v : Volume) (name : Name) (p : Place) : Prop :=
  (v.entry p).InUse ∧ ¬ (v.entry p).HasAttr attrVolumeId ∧
    (v.entry p).name = name

theorem Volume.lookup_eq_some_iff {v : Volume} {name : Name} {ps : List Place}
    (h : v.Orderly ps) {p : Place} :
    v.lookup name ps = some p ↔ p ∈ ps ∧ v.Named name p := by
  induction ps with
  | nil => simp [Volume.lookup]
  | cons q ps ih =>
      have hrest := ih h.tail
      have hended := (List.pairwise_cons.mp h.ended).1
      rw [Volume.lookup, List.mem_cons]
      split_ifs with hend hdeleted hvolume hname
      · constructor
        · simp
        · rintro ⟨rfl | hp, hnamed⟩
          · exact absurd hend hnamed.1.1
          · exact absurd hnamed.1 (hended p hp hend)
      · rw [hrest]
        constructor
        · exact fun hp => ⟨.inr hp.1, hp.2⟩
        · rintro ⟨rfl | hp, hnamed⟩
          · exact absurd hdeleted hnamed.1.2
          · exact ⟨hp, hnamed⟩
      · rw [hrest]
        constructor
        · exact fun hp => ⟨.inr hp.1, hp.2⟩
        · rintro ⟨rfl | hp, hnamed⟩
          · exact absurd hvolume hnamed.2.1
          · exact ⟨hp, hnamed⟩
      · constructor
        · intro heq
          cases heq
          exact ⟨.inl rfl, ⟨hend, hdeleted⟩, hvolume, hname⟩
        · rintro ⟨hp, hnamed⟩
          have hsame := h.unique q (by simp) p (by simpa using hp)
            ⟨hend, hdeleted⟩ hnamed.1 (hname.trans hnamed.2.2.symm)
          rw [hsame]
      · rw [hrest]
        constructor
        · exact fun hp => ⟨.inr hp.1, hp.2⟩
        · rintro ⟨rfl | hp, hnamed⟩
          · exact absurd hnamed.2.2 hname
          · exact ⟨hp, hnamed⟩

/-! ## Choosing a place -/

/-- What the scan of the creating functions comes back with. -/
inductive Choice where
  | existing (p : Place)
  | free (p : Option Place)

def Volume.choose (v : Volume) (skip : Nat → Nat → DirEntry → Bool)
    (name : Name) : List Place → Option Place → Choice
  | [], slot => .free slot
  | p :: rest, slot =>
      if skip p.1 p.2 (v.entry p) then v.choose skip name rest slot
      else if (v.entry p).IsEnd ∨ (v.entry p).IsDeleted then
        if (v.entry p).IsEnd then .free (slot.or (some p))
        else v.choose skip name rest (slot.or (some p))
      else if (v.entry p).name = name then .existing p
      else v.choose skip name rest slot

def Volume.search (v : Volume) : Choice → SlotSearch
  | .existing p => .existing (v.slotAt p)
  | .free p => .free (p.map v.slotAt)

private theorem or_map_slotAt (v : Volume) (slot : Option Place) (p : Place) :
    (slot.map v.slotAt).or (some (v.slotAt p)) =
      (slot.or (some p)).map v.slotAt := by
  cases slot <;> rfl

theorem Volume.choose_placesFrom (v : Volume)
    (skip : Nat → Nat → DirEntry → Bool) (name : Name) (c i count : Nat)
    (rest : List Place) (slot : Option Place) :
    match scanIn (skip c) name c (v.data c) count i (slot.map v.slotAt) with
    | .found k =>
        v.choose skip name (placesFrom c i count ++ rest) slot = .existing (c, k)
    | .stop found => ∃ p, found = p.map v.slotAt ∧
        v.choose skip name (placesFrom c i count ++ rest) slot = .free p
    | .more found => ∃ p, found = p.map v.slotAt ∧
        v.choose skip name (placesFrom c i count ++ rest) slot =
          v.choose skip name rest p := by
  induction count generalizing i slot with
  | zero => exact ⟨slot, rfl, rfl⟩
  | succ count ih =>
      have hslot : (⟨c, i, v.data c⟩ : Slot) = v.slotAt (c, i) := rfl
      have hentry : entryAt (v.data c) i = v.entry (c, i) := rfl
      rw [placesFrom_succ, List.cons_append, Volume.choose, scanIn, hentry]
      by_cases hpass : skip c i (v.entry (c, i)) = true
      · rw [if_pos hpass, if_pos hpass]
        exact ih (i + 1) slot
      rw [if_neg hpass, if_neg hpass]
      by_cases hfree : (v.entry (c, i)).IsEnd ∨ (v.entry (c, i)).IsDeleted
      · rw [if_pos hfree, if_pos hfree, hslot, or_map_slotAt]
        simp only
        by_cases hend : (v.entry (c, i)).IsEnd
        · rw [if_pos hend, if_pos hend]
          exact ⟨_, rfl, rfl⟩
        · rw [if_neg hend, if_neg hend]
          exact ih (i + 1) (slot.or (some (c, i)))
      rw [if_neg hfree, if_neg hfree]
      by_cases hname : (v.entry (c, i)).name = name
      · rw [if_pos hname, if_pos hname]
      · rw [if_neg hname, if_neg hname]
        exact ih (i + 1) slot

theorem findSlot_executes {v : Volume} (hlayout : v.fs.Layout)
    (skip : Nat → Nat → DirEntry → Bool) {first last : Nat} {l : List Nat}
    (hwalk : Walk v.link Live first l last)
    (hrange : ∀ c ∈ l, v.fs.InRange c) (name : Name) (slot : Option Place) :
    Executes v (findSlot skip name first (slot.map v.slotAt))
      (v.search (v.choose skip name (places l) slot)) v := by
  induction hwalk generalizing slot with
  | stop hstop =>
      rw [findSlot]
      exact Runs.if_neg hstop (Runs.pure v _)
  | @step c last l hlive _ ih =>
      have hc := hrange c (by simp)
      have hscan := v.choose_placesFrom skip name c 0 128 (places l) slot
      rw [findSlot, places_cons]
      refine Runs.if_pos hlive ?_
      refine Runs.bind (readCluster_executes v hc) ?_
      refine Runs.bind (getFs_executes v) ?_
      rw [hlayout.entriesPerCluster_eq]
      cases hresult : scanIn (skip c) name c (v.data c) 128 0
          (slot.map v.slotAt) with
      | found i =>
          rw [hresult] at hscan
          rw [hscan]
          exact Runs.pure _ _
      | stop found =>
          rw [hresult] at hscan
          obtain ⟨p, rfl, hchoose⟩ := hscan
          rw [hchoose]
          exact Runs.pure _ _
      | more found =>
          rw [hresult] at hscan
          obtain ⟨p, rfl, hchoose⟩ := hscan
          rw [hchoose]
          refine Runs.bind (getNextCluster_executes v hc.2) ?_
          exact ih (fun d hd => hrange d (List.mem_cons_of_mem _ hd)) p

/-- Only entries in use that have another name are passed over. -/
def Volume.SkipsOthers (v : Volume) (skip : Nat → Nat → DirEntry → Bool)
    (name : Name) (ps : List Place) : Prop :=
  ∀ p ∈ ps, skip p.1 p.2 (v.entry p) = true →
    (v.entry p).InUse ∧ (v.entry p).name ≠ name

theorem Volume.choose_existing {v : Volume}
    {skip : Nat → Nat → DirEntry → Bool} {name : Name} {ps : List Place}
    {slot : Option Place} {p : Place}
    (h : v.choose skip name ps slot = .existing p) :
    p ∈ ps ∧ (v.entry p).InUse ∧ (v.entry p).name = name := by
  induction ps generalizing slot with
  | nil => simp [Volume.choose] at h
  | cons q ps ih =>
      simp only [Volume.choose] at h
      split_ifs at h with _ hfree _ hname
      · exact ⟨List.mem_cons_of_mem _ (ih h).1, (ih h).2⟩
      · exact ⟨List.mem_cons_of_mem _ (ih h).1, (ih h).2⟩
      · cases h
        exact ⟨List.mem_cons_self, not_or.mp hfree, hname⟩
      · exact ⟨List.mem_cons_of_mem _ (ih h).1, (ih h).2⟩

/-- The place that is kept is the first one not in use. -/
def Volume.FirstFree (v : Volume) (ps : List Place) (p : Place) : Prop :=
  ∃ before after, ps = before ++ p :: after ∧ ¬ (v.entry p).InUse ∧
    ∀ q ∈ before, (v.entry q).InUse

theorem Volume.FirstFree.cons {v : Volume} {ps : List Place} {p q : Place}
    (h : v.FirstFree ps p) (hq : (v.entry q).InUse) :
    v.FirstFree (q :: ps) p := by
  obtain ⟨before, after, rfl, hp, hbefore⟩ := h
  refine ⟨q :: before, after, rfl, hp, ?_⟩
  intro r hr
  rcases List.mem_cons.mp hr with rfl | hr
  · exact hq
  · exact hbefore r hr

theorem Volume.choose_free {v : Volume} {skip : Nat → Nat → DirEntry → Bool}
    {name : Name} {ps : List Place} (horder : v.Orderly ps)
    (hskip : v.SkipsOthers skip name ps) {slot found : Option Place}
    (h : v.choose skip name ps slot = .free found) :
    (∀ q ∈ ps, (v.entry q).InUse → (v.entry q).name ≠ name) ∧
    (∀ p, slot = some p → found = some p) ∧
    (slot = none → found = none → ∀ q ∈ ps, (v.entry q).InUse) ∧
    (slot = none → ∀ p, found = some p → v.FirstFree ps p) := by
  induction ps generalizing slot with
  | nil =>
      cases h
      simp +contextual
  | cons q ps ih =>
      have hended := (List.pairwise_cons.mp horder.ended).1
      have hskip' : v.SkipsOthers skip name ps := fun p hp =>
        hskip p (List.mem_cons_of_mem _ hp)
      simp only [Volume.choose] at h
      split_ifs at h with hpass hfree hend hname
      · -- a dot entry
        obtain ⟨huse, hother⟩ := hskip q (by simp) hpass
        obtain ⟨hnames, hkept, hfull, hfirst⟩ := ih horder.tail hskip' h
        exact ⟨List.forall_mem_cons.mpr ⟨fun _ => hother, hnames⟩, hkept,
          fun hnone hfound =>
            List.forall_mem_cons.mpr ⟨huse, hfull hnone hfound⟩,
          fun hnone p hp => (hfirst hnone p hp).cons huse⟩
      · -- the end mark
        cases h
        refine ⟨List.forall_mem_cons.mpr ⟨fun huse => absurd hend huse.1, ?_⟩,
          ?_, ?_, ?_⟩
        · exact fun p hp huse => absurd huse (hended p hp hend)
        · rintro p rfl
          rfl
        · rintro rfl hnone
          simp at hnone
        · rintro rfl p hp
          cases hp
          exact ⟨[], ps, rfl, fun huse => huse.1 hend, by simp⟩
      · -- a deleted entry
        have hnot : ¬ (v.entry q).InUse := fun huse =>
          hfree.elim huse.1 huse.2
        obtain ⟨hnames, hkept, -⟩ := ih horder.tail hskip' h
        refine ⟨List.forall_mem_cons.mpr ⟨fun huse => absurd huse hnot, hnames⟩,
          ?_, ?_, ?_⟩
        · rintro p rfl
          exact hkept p rfl
        · rintro rfl hnone
          rw [hkept q rfl] at hnone
          simp at hnone
        · rintro rfl p hp
          rw [hkept q rfl] at hp
          cases hp
          exact ⟨[], ps, rfl, hnot, by simp⟩
      · -- another entry
        have huse : (v.entry q).InUse := not_or.mp hfree
        obtain ⟨hnames, hkept, hfull, hfirst⟩ := ih horder.tail hskip' h
        exact ⟨List.forall_mem_cons.mpr ⟨fun _ => hname, hnames⟩, hkept,
          fun hnone hfound =>
            List.forall_mem_cons.mpr ⟨huse, hfull hnone hfound⟩,
          fun hnone p hp => (hfirst hnone p hp).cons huse⟩

theorem Volume.choose_free_mem {v : Volume} {skip : Nat → Nat → DirEntry → Bool}
    {name : Name} {ps : List Place} {slot : Option Place} {p : Place}
    (h : v.choose skip name ps slot = .free (some p)) : p ∈ ps ∨ slot = some p := by
  induction ps generalizing slot with
  | nil =>
      cases h
      exact .inr rfl
  | cons q ps ih =>
      have hor : ∀ {found : Option Place}, found.or (some q) = some p →
          p ∈ q :: ps ∨ found = some p := by
        rintro (_ | found) hfound
        · cases hfound
          exact .inl List.mem_cons_self
        · exact .inr hfound
      rw [Volume.choose] at h
      split_ifs at h
      · exact (ih h).imp_left (List.mem_cons_of_mem q)
      · exact hor (Choice.free.inj h)
      · rcases ih h with hp | hp
        · exact .inl (List.mem_cons_of_mem q hp)
        · exact hor hp
      · exact (ih h).imp_left (List.mem_cons_of_mem q)

/-! ## Empty directories -/

/-- The search of `fat32_is_directory_empty`. -/
def Volume.emptyOn (v : Volume) : List Place → Int
  | [] => 1
  | p :: rest =>
      if (v.entry p).IsEnd then 1
      else if (v.entry p).IsDeleted then v.emptyOn rest
      else if (v.entry p).name = dotName then v.emptyOn rest
      else if (v.entry p).name = dotDotName then v.emptyOn rest
      else 0

theorem Volume.emptyOn_placesFrom (v : Volume) (c i count : Nat)
    (rest : List Place) :
    v.emptyOn (placesFrom c i count ++ rest) =
      match emptyIn (v.data c) count i with
      | some result => result
      | none => v.emptyOn rest := by
  induction count generalizing i with
  | zero => rfl
  | succ count ih =>
      simp only [placesFrom_succ, List.cons_append, Volume.emptyOn, ih,
        Volume.entry, emptyIn]
      split_ifs <;> rfl

theorem isDirectoryEmpty_executes {v : Volume} (hlayout : v.fs.Layout)
    {first last : Nat} {l : List Nat} (hwalk : Walk v.link Live first l last)
    (hrange : ∀ c ∈ l, v.fs.InRange c) :
    Executes v (isDirectoryEmpty first) (v.emptyOn (places l)) v := by
  induction hwalk with
  | stop hstop =>
      rw [isDirectoryEmpty]
      exact Runs.if_neg hstop (Runs.pure v 1)
  | @step c last l hlive _ ih =>
      have hc := hrange c (by simp)
      rw [isDirectoryEmpty, places_cons, Volume.emptyOn_placesFrom]
      refine Runs.if_pos hlive ?_
      refine Runs.bind (readCluster_executes v hc) ?_
      refine Runs.bind (getFs_executes v) ?_
      rw [hlayout.entriesPerCluster_eq]
      cases emptyIn (v.data c) 128 0 with
      | some result => exact Runs.pure _ _
      | none =>
          refine Runs.bind (getNextCluster_executes v hc.2) ?_
          exact ih fun d hd => hrange d (List.mem_cons_of_mem _ hd)

/-- The names that do not count when a directory is tested. -/
def DirEntry.IsDot (entry : DirEntry) : Prop :=
  entry.name = dotName ∨ entry.name = dotDotName

instance (entry : DirEntry) : Decidable entry.IsDot :=
  inferInstanceAs (Decidable (_ ∨ _))

theorem Volume.emptyOn_ne_zero {v : Volume} {ps : List Place}
    (horder : v.Orderly ps) (h : v.emptyOn ps ≠ 0) :
    ∀ p ∈ ps, (v.entry p).InUse → (v.entry p).IsDot := by
  induction ps with
  | nil => simp
  | cons q ps ih =>
      have hended := (List.pairwise_cons.mp horder.ended).1
      have hrest := ih horder.tail
      simp only [Volume.emptyOn] at h
      rw [List.forall_mem_cons]
      split_ifs at h with hend hdeleted hdot hdotDot
      · exact ⟨fun huse => absurd hend huse.1,
          fun p hp huse => absurd huse (hended p hp hend)⟩
      · exact ⟨fun huse => absurd hdeleted huse.2, hrest h⟩
      · exact ⟨fun _ => .inl hdot, hrest h⟩
      · exact ⟨fun _ => .inr hdotDot, hrest h⟩
      · exact absurd rfl h

end EntropyOS.Fat32

import Signum.Workspace.Files
import Signum.Proofs.Syntax.Comments
/- Reading what was written to a file.

   Where a path leads depends on its names only (`placeOf_eq`), as long as the places on the way
   are folders, and what is a folder stays one. So a file that was written is read back, and it
   is until something is written at the same place (`read_write`, `read_write_of_ne`). A name in
   a folder leads to the place of the folder and the name (`landing_lead`). -/
namespace Signum

namespace FileStore

variable {s s' : FileStore} {path other content : Bytes}

/-! Places. -/

/-- Where a path leads from a folder, if it leads anywhere. -/
def landing (working : Place) (path : Bytes) : Place :=
  (path.splitOn Path.slash).foldl follow (if Path.isAbsolute path then [] else working)

theorem walk_eq {names : List Bytes} : ∀ {folder p : Place}, s.walk folder names = .ok p →
    p = names.foldl follow folder := by
  induction names with
  | nil =>
    intro folder p h
    cases h
    rfl
  | cons name rest ih =>
    intro folder p h
    rw [walk] at h
    split at h
    · cases h
    · cases h
    · exact ih h

theorem placeOf_eq {p : Place} (h : s.placeOf path = .ok p) : p = landing s.working path := by
  unfold placeOf at h
  split at h
  · cases h
  · split at h
    · cases h
    · exact walk_eq h

/-! What is at a place. -/

theorem lookup_cons_eq (key : Place) (old : Entry) (rest : List (Place × Entry)) (q : Place) :
    ((key, old) :: rest).lookup q = if q = key then some old else rest.lookup q := by
  rw [List.lookup_cons]
  by_cases hq : q = key
  · rw [if_pos hq, beq_iff_eq.mpr hq]
  · rw [if_neg hq, beq_eq_false_iff_ne.mpr hq]

theorem lookup_put_map {entries : List (Place × Entry)} {p : Place}
    (h : entries.any (·.1 == p) = true) (entry : Entry) (q : Place) :
    (entries.map fun e => if e.1 == p then (p, entry) else e).lookup q =
      if q = p then some entry else entries.lookup q := by
  have hall (entries : List (Place × Entry)) :
      (entries.map fun e => if e.1 == p then (p, entry) else e).lookup q =
        if q = p then (entries.lookup p).map fun _ => entry else entries.lookup q := by
    induction entries with
    | nil => simp
    | cons e rest ih =>
      obtain ⟨key, old⟩ := e
      rw [List.map_cons, lookup_cons_eq, lookup_cons_eq]
      by_cases hkey : key = p
      · subst hkey
        rw [if_pos (beq_self_eq_true key), lookup_cons_eq, ih]
        split <;> simp
      · have hhead : ¬((key, old).1 == p) = true := by simpa using hkey
        rw [if_neg hhead, lookup_cons_eq, ih, if_neg (Ne.symm hkey)]
        by_cases hq : q = key
        · have hp : ¬q = p := by rwa [hq]
          rw [if_pos hq, if_neg hp, if_pos hq]
        · rw [if_neg hq, if_neg hq]
  obtain ⟨⟨key, old⟩, hmem, hkey⟩ := List.any_eq_true.mp h
  have hfound : (entries.lookup p).isSome = true := by
    rw [List.lookup_isSome_iff]
    exact ⟨(key, old), hmem, by rw [beq_iff_eq] at hkey ⊢; exact hkey.symm⟩
  obtain ⟨found, hlookup⟩ := Option.isSome_iff_exists.mp hfound
  rw [hall, hlookup]
  rfl

theorem lookup_put_append {entries : List (Place × Entry)} {p : Place}
    (h : ¬entries.any (·.1 == p) = true) (entry : Entry) (q : Place) :
    (entries ++ [(p, entry)]).lookup q = if q = p then some entry else entries.lookup q := by
  induction entries with
  | nil => rw [List.nil_append, lookup_cons_eq]
  | cons e rest ih =>
    obtain ⟨key, old⟩ := e
    rw [List.any_cons, Bool.or_eq_true, not_or] at h
    have hkey : key ≠ p := by simpa using h.1
    rw [List.cons_append, lookup_cons_eq, lookup_cons_eq, ih h.2]
    by_cases hq : q = key
    · rw [if_pos hq, if_pos hq, if_neg (by rwa [hq])]
    · rw [if_neg hq, if_neg hq]

/-- What is put at a place is there, and everything else stays. -/
theorem entryAt?_put {p : Place} (hp : p ≠ []) (entry : Entry) (q : Place) :
    (s.put p entry).entryAt? q = if q = p then some entry else s.entryAt? q := by
  unfold entryAt?
  by_cases hq : q = []
  · subst hq
    simp [Ne.symm hp]
  · have hnot : q.isEmpty = false := by simpa using hq
    simp only [hnot, Bool.false_eq_true, if_false]
    unfold put
    split
    · next hany => exact lookup_put_map hany entry q
    · next hany => exact lookup_put_append hany entry q

/-! Writing and reading. -/

theorem write_eq (h : s.write path content = .ok s') :
    ∃ p, s.placeOf path = .ok p ∧ p ≠ [] ∧ s.entryAt? p ≠ some .folder ∧
      s' = s.put p (.file content) := by
  unfold write at h
  split at h
  · cases h
  · next p hp =>
    split at h
    · cases h
    · next hfolder =>
      cases h
      refine ⟨p, hp, ?_, hfolder, rfl⟩
      rintro rfl
      exact hfolder rfl

theorem write_working (h : s.write path content = .ok s') : s'.working = s.working := by
  obtain ⟨p, -, -, -, rfl⟩ := write_eq h
  unfold put
  split <;> rfl

/-- A folder stays a folder. -/
theorem folder_write (h : s.write path content = .ok s') {q : Place}
    (hq : s.entryAt? q = some .folder) : s'.entryAt? q = some .folder := by
  obtain ⟨p, -, hne, hfolder, rfl⟩ := write_eq h
  rw [entryAt?_put hne, if_neg, hq]
  rintro rfl
  exact hfolder hq

theorem walk_write (h : s.write path content = .ok s') {names : List Bytes} :
    ∀ {folder p : Place}, s.walk folder names = .ok p → s'.walk folder names = .ok p := by
  induction names with
  | nil => exact fun hwalk => hwalk
  | cons name rest ih =>
    intro folder p hwalk
    rw [walk] at hwalk ⊢
    split at hwalk
    · cases hwalk
    · cases hwalk
    · next hfolder =>
      rw [folder_write h hfolder]
      exact ih hwalk

theorem placeOf_write (h : s.write path content = .ok s') {p : Place}
    (hp : s.placeOf other = .ok p) : s'.placeOf other = .ok p := by
  unfold placeOf at hp ⊢
  split at hp
  · cases hp
  · next hzero =>
    rw [if_neg hzero]
    split at hp
    · cases hp
    · next hempty =>
      rw [if_neg hempty, write_working h]
      exact walk_write h hp

theorem read_iff : s.read path = .ok content ↔
    ∃ p, s.placeOf path = .ok p ∧ s.entryAt? p = some (.file content) := by
  unfold read find
  cases hp : s.placeOf path with
  | error cause => simp [bind, Except.bind]
  | ok p =>
    cases he : s.entryAt? p with
    | none => simp [bind, Except.bind, he]
    | some entry => cases entry <;> simp [bind, Except.bind, he]

/-- A file that was written is read back. -/
theorem read_write (h : s.write path content = .ok s') : s'.read path = .ok content := by
  obtain ⟨p, hp, hne, -, heq⟩ := write_eq h
  rw [read_iff]
  refine ⟨p, placeOf_write h hp, ?_⟩
  rw [heq, entryAt?_put hne, if_pos rfl]

/-- Other files are read as before. -/
theorem read_write_of_ne {old : Bytes} (h : s.write path content = .ok s')
    (hother : s.read other = .ok old) (hne : landing s.working other ≠ landing s.working path) :
    s'.read other = .ok old := by
  obtain ⟨q, hq, hentry⟩ := read_iff.mp hother
  obtain ⟨p, hp, hroot, -, heq⟩ := write_eq h
  have hplaces : q ≠ p := by
    rw [placeOf_eq hq, placeOf_eq hp]
    exact hne
  rw [read_iff]
  refine ⟨q, placeOf_write h hq, ?_⟩
  rw [heq, entryAt?_put hroot, if_neg hplaces, hentry]

end FileStore

/-! Names in a folder. -/

namespace Path

/-- The name of something in a folder: not empty, no way back, and with no slash in it. -/
structure Plain (name : Bytes) : Prop where
  ne_nil : name ≠ []
  ne_here : name ≠ Bytes.ofString "."
  ne_above : name ≠ above
  no_slash : slash ∉ name

/-- What stands before a name in a folder. -/
def lead (folder : Bytes) : Bytes :=
  if folder.isEmpty then []
  else (if isAbsolute folder then [slash] else []) ++
    (reduce (isAbsolute folder) [] (folder.splitOn slash)).flatMap (· ++ [slash])

variable {name : Bytes}

theorem isAbsolute_plain (h : Plain name) : isAbsolute name = false := by
  obtain ⟨b, more, hcons⟩ := List.exists_cons_of_ne_nil h.ne_nil
  have hb : b ≠ slash := by
    rintro rfl
    exact h.no_slash (by rw [hcons]; exact List.mem_cons_self)
  rw [hcons]
  simpa [isAbsolute] using hb

theorem reduce_plain (h : Plain name) (rooted : Bool) (kept rest : List Bytes) :
    reduce rooted kept (name :: rest) = reduce rooted (name :: kept) rest := by
  have hempty : ¬(name.isEmpty || name == Bytes.ofString ".") = true := by
    simp [h.ne_nil, h.ne_here]
  have habove : ¬(name == above) = true := by simp [h.ne_above]
  rw [reduce.eq_def]
  dsimp only
  rw [if_neg hempty, if_neg habove]

theorem reduce_concat (h : Plain name) (rooted : Bool) (kept names : List Bytes) :
    reduce rooted kept (names ++ [name]) = reduce rooted kept names ++ [name] := by
  fun_induction reduce rooted kept names with
  | case1 kept => rw [List.nil_append, reduce_plain h, reduce, List.reverse_cons]
  | case2 kept first rest hstay ih =>
    rw [List.cons_append, reduce.eq_def]
    simp only [hstay, if_true, ih]
  | case3 first rest hstay habove last before hlast ih =>
    rw [List.cons_append, reduce.eq_def]
    simp only [hstay, habove, hlast, Bool.false_eq_true, if_false, if_true, ih]
  | case4 first rest hstay habove last before hlast ih =>
    rw [List.cons_append, reduce.eq_def]
    simp only [hstay, habove, hlast, Bool.false_eq_true, if_false, if_true, ih]
  | case5 first rest hstay habove ih =>
    rw [List.cons_append, reduce.eq_def]
    simp only [hstay, habove, Bool.false_eq_true, if_false, if_true, ih]
  | case6 kept first rest hstay habove ih =>
    rw [List.cons_append, reduce.eq_def]
    simp only [hstay, habove, Bool.false_eq_true, if_false, ih]

theorem join_concat (names : List Bytes) (last : Bytes) :
    Bytes.join [slash] (names ++ [last]) = names.flatMap (· ++ [slash]) ++ last := by
  induction names with
  | nil => rfl
  | cons first rest ih =>
    obtain ⟨second, more, hcons⟩ : ∃ second more, rest ++ [last] = second :: more := by
      cases rest <;> exact ⟨_, _, rfl⟩
    rw [List.cons_append, hcons, Bytes.join, ← hcons, ih, List.flatMap_cons]
    simp

/-- The path of a name in a folder ends with the name. -/
theorem join_plain (h : Plain name) (folder : Bytes) : join folder name = lead folder ++ name := by
  have hname : name.isEmpty = false := by simp [h.ne_nil]
  unfold join lead
  by_cases hfolder : folder = []
  · subst hfolder
    simp only [List.isEmpty_nil, Bool.not_true, Bool.not_false, hname, List.filter_cons,
      List.filter_nil, Bool.false_eq_true, if_false, if_true]
    rw [Bytes.join]
    unfold clean
    rw [isAbsolute_plain h, Bytes.splitOn_of_not_mem h.no_slash, ← List.nil_append [name],
      reduce_concat h, reduce]
    simp [Bytes.join]
  · have hnot : folder.isEmpty = false := by simpa using hfolder
    simp only [hnot, Bool.not_false, hname, List.filter_cons, List.filter_nil,
      Bool.false_eq_true, if_false, if_true]
    have hparts : Bytes.join [slash] [folder, name] = folder ++ slash :: name := by
      simp [Bytes.join]
    have habsolute : isAbsolute (folder ++ slash :: name) = isAbsolute folder := by
      unfold isAbsolute
      rw [List.head?_append_of_ne_nil _ hfolder]
    rw [hparts]
    unfold clean
    rw [habsolute, Bytes.splitOn_append, Bytes.splitOn_of_not_mem h.no_slash, reduce_concat h]
    dsimp only
    rw [join_concat]
    split <;> simp

end Path

namespace FileStore

theorem lead_cases (folder : Bytes) :
    Path.lead folder = [] ∨ ∃ start, Path.lead folder = start ++ [Path.slash] := by
  unfold Path.lead
  split
  · exact .inl rfl
  · generalize Path.reduce (Path.isAbsolute folder) [] (folder.splitOn Path.slash) = names
    rcases List.eq_nil_or_concat names with rfl | ⟨init, last, rfl⟩
    · split
      · exact .inr ⟨[], rfl⟩
      · exact .inl rfl
    · right
      refine ⟨(if Path.isAbsolute folder then [Path.slash] else []) ++
        (init.flatMap (· ++ [Path.slash]) ++ last), ?_⟩
      rw [List.concat_eq_append, List.flatMap_append, List.flatMap_singleton]
      simp only [List.append_assoc]

theorem follow_plain {name : Bytes} (h : Path.Plain name) (place : Place) :
    follow place name = place ++ [name] := by
  unfold follow
  rw [if_neg (by simp [h.ne_nil, h.ne_here]), if_neg (by simp [h.ne_above])]

/-- The names in a folder lead to the names in one place. -/
theorem landing_lead (working : Place) (folder : Bytes) :
    ∃ place, ∀ name, Path.Plain name →
      landing working (Path.lead folder ++ name) = place ++ [name] := by
  rcases lead_cases folder with hnone | ⟨start, hstart⟩
  · refine ⟨working, fun name h => ?_⟩
    unfold landing
    rw [hnone, List.nil_append, Bytes.splitOn_of_not_mem h.no_slash, Path.isAbsolute_plain h]
    exact follow_plain h working
  · refine ⟨landing working (start ++ [Path.slash]), fun name h => ?_⟩
    have hsplit : start ++ [Path.slash] ++ name = start ++ Path.slash :: name := by simp
    have habsolute : Path.isAbsolute (start ++ Path.slash :: name) =
        Path.isAbsolute (start ++ [Path.slash]) := by
      cases start <;> rfl
    unfold landing
    rw [hstart, hsplit, habsolute, Bytes.splitOn_append, Bytes.splitOn_append,
      Bytes.splitOn_of_not_mem h.no_slash, List.foldl_append, List.foldl_append]
    -- after the last slash there is an empty name, which leads nowhere else
    exact follow_plain h _

end FileStore
end Signum

import KeyedStore.Proofs.FilesAtPaths
import KeyedStore.Proofs.Steps

/-!
# Orderly disks

A disk on which every name leads to a file that was made and no file has two names. Nothing that is done
to a disk gives a file a second name, so files with different names are different files: what is written
under one name or taken away leaves what is under another name as it was.
-/

namespace KeyedStore.Disk

variable {d d' : Disk} {path front front' : Path} {place : Place} {name name' : String} {id id' : Nat}

/-- Every name leads to a file that was made, and no file has two names. -/
structure Orderly (d : Disk) : Prop where
  intact : d.Intact
  single : ∀ (p q : Place) (id : Nat), d.nodes[p]? = some (.file id) → d.nodes[q]? = some (.file id) → p = q

namespace Orderly

theorem empty : ({} : Disk).Orderly := by
  refine ⟨intact_empty, ?_⟩
  intro p q id h
  simp at h

/-- A disk with no names of files but those of an orderly one is orderly. -/
theorem mono (hd : d.Orderly) (hsize : d.contents.size ≤ d'.contents.size)
    (hnodes : ∀ (p : Place) (id : Nat), d'.nodes[p]? = some (.file id) → d.nodes[p]? = some (.file id)) :
    d'.Orderly where
  intact p id h := Nat.lt_of_lt_of_le (hd.intact p id (hnodes p id h)) hsize
  single p q id hp hq := hd.single p q id (hnodes p id hp) (hnodes q id hq)

theorem change (hd : d.Orderly) (id : Nat) (f : Content → Content) : (d.change id f).Orderly :=
  hd.mono (Nat.le_of_eq (d.size_change id f).symm) fun _ _ h => h

theorem withDirectory (hd : d.Orderly) (place : Place) : (d.withDirectory place).Orderly := by
  refine hd.mono (Nat.le_refl _) ?_
  intro p id h
  by_cases hp : p = place
  · rw [hp, getElem?_nodes_withDirectory_self] at h
    cases h
  · rwa [getElem?_nodes_withDirectory_ne hp] at h

theorem without (hd : d.Orderly) (place : Place) : (d.without place).Orderly := by
  refine hd.mono (Nat.le_refl _) ?_
  intro p id h
  by_cases hp : p = place
  · rw [hp, getElem?_nodes_without_self] at h
    cases h
  · rwa [getElem?_nodes_without_ne hp] at h

theorem insertFile (hd : d.Orderly) (place : Place) : (d.insertFile place).Orderly where
  intact := hd.intact.insertFile place
  single p q id hp hq := by
    by_cases hpp : p = place
    · by_cases hqp : q = place
      · rw [hpp, hqp]
      · rw [hpp, getElem?_nodes_insertFile_self] at hp
        cases hp
        have hold := hd.intact q _ ((d.getElem?_insert_ne _ hqp).symm.trans hq)
        exact absurd hold (Nat.lt_irrefl _)
    · have hold := (d.getElem?_insert_ne _ hpp).symm.trans hp
      by_cases hqp : q = place
      · rw [hqp, getElem?_nodes_insertFile_self] at hq
        cases hq
        exact absurd (hd.intact p _ hold) (Nat.lt_irrefl _)
      · exact hd.single p q id hold ((d.getElem?_insert_ne _ hqp).symm.trans hq)

end Orderly

/-! ### Names -/

theorem makeDirectory_eq_ok (h : makeDirectory path d = .ok () d') : ∃ place, d' = d.withDirectory place := by
  rw [makeDirectory] at h
  split at h
  · contradiction
  · split at h
    · contradiction
    · contradiction
    · cases h
      exact ⟨_, rfl⟩

theorem discard_eq (d : Disk) (path : Path) :
    d.discard path = d ∨ ∃ place id, d.find path = .ok (place, .file id) ∧ d.discard path = d.without place := by
  unfold discard remove
  cases hfind : d.find path with
  | error fault => exact Or.inl rfl
  | ok found =>
    obtain ⟨place, _ | id⟩ := found
    · exact Or.inl rfl
    · exact Or.inr ⟨place, id, rfl, rfl⟩

/-- A path that leads to a file ends in the name of the file. -/
theorem nodes_of_find (h : d.find (front ++ [name]) = .ok (place, .file id)) :
    ∃ dir, place = dir ++ [name] ∧ d.nodes[place]? = some (.file id) := by
  simp only [find, bind, Except.bind] at h
  split at h
  · contradiction
  · next start hstart =>
    obtain ⟨front', name', dir, hpath, hidle, hup, hfront, hfile⟩ := exists_concat_of_follow h
    rw [hpath, follow_concat hfront hidle hup hfile] at h
    cases h
    obtain ⟨-, hname⟩ := List.append_inj' hpath rfl
    cases hname
    rw [lookup] at hfile
    split at hfile
    · contradiction
    · exact ⟨dir, rfl, Except.ok.inj hfile⟩

/-- A path leads to the same file as long as its directories and the name of the file are there. -/
theorem file_mono (h : d.find path = .ok (place, .file id)) (hhere : d'.here = d.here)
    (hdir : ∀ p : Place, d.nodes[p]? = some .directory → d'.nodes[p]? = some .directory)
    (hnode : d'.nodes[place]? = some (.file id)) : d'.file path = .ok id := by
  simp only [find, bind, Except.bind] at h
  split at h
  · contradiction
  · next start hstart =>
    obtain ⟨front, name, dir, rfl, hidle, hup, hfront, hfile⟩ := exists_concat_of_follow h
    rw [follow_concat hfront hidle hup hfile] at h
    cases h
    have hstart' : d'.start (front ++ [name]) = .ok start := by
      rw [← hstart, Disk.start, Disk.start, hhere]
    have hfile' : d'.lookup dir name = .ok (some (.file id)) := by
      rw [lookup] at hfile ⊢
      split at hfile
      · contradiction
      · next hshort => rw [if_neg hshort, hnode]
    have hfollow := follow_concat (follow_mono hdir hfront) hidle hup hfile'
    simp only [file, find, hstart', bind, Except.bind, hfollow]

namespace Orderly

theorem inside (hd : d.Orderly) (h : d.file path = .ok id) : id < d.contents.size := by
  have hprovide := provide_of_file h
  exact (file_of_provide hd.intact hprovide).2

theorem provide (hd : d.Orderly) (h : Disk.provide path d = .ok id d') : d'.Orderly := by
  obtain ⟨front, name, dir, -, ⟨-, rfl⟩ | ⟨-, -, rfl⟩⟩ := provide_eq_ok h
  · exact hd
  · exact hd.insertFile _

/-- Providing a file under one name leaves the file under another name where it is. -/
theorem provide_ne (hd : d.Orderly) (hne : name' ≠ name) (hfile : d.file (front ++ [name]) = .ok id)
    (h : Disk.provide (front' ++ [name']) d = .ok id' d') :
    id' ≠ id ∧ d'.file (front ++ [name]) = .ok id ∧ d'.content id = d.content id := by
  obtain ⟨place, hfind⟩ := find_of_file hfile
  obtain ⟨dir, rfl, hnode⟩ := nodes_of_find hfind
  obtain ⟨front₁, name₁, dir', hpath, hprovide⟩ := provide_eq_ok h
  obtain ⟨-, hname⟩ := List.append_inj' hpath rfl
  cases hname
  have hplace : dir ++ [name] ≠ dir' ++ [name'] := concat_ne_concat dir dir' hne.symm
  rcases hprovide with ⟨hnode', rfl⟩ | ⟨hnone, rfl, rfl⟩
  · refine ⟨?_, hfile, rfl⟩
    rintro rfl
    exact hplace (hd.single _ _ _ hnode hnode')
  · refine ⟨Nat.ne_of_gt (hd.intact _ _ hnode), ?_, d.content_insertFile _ id⟩
    exact file_mono hfind rfl (d.directory_insert _ hnone) ((d.getElem?_insert_ne _ hplace).trans hnode)

/-- Writing a file under one name leaves the file under another name as it is, also if it fails. -/
theorem write_ne (hd : d.Orderly) (hne : name' ≠ name) (hfile : d.file (front ++ [name]) = .ok id)
    (front' : Path) (bs : Bytes) :
    (stateAfter (write (front' ++ [name']) bs) d).file (front ++ [name]) = .ok id ∧
      (stateAfter (write (front' ++ [name']) bs) d).content id = d.content id := by
  cases hprovide : Disk.provide (front' ++ [name']) d with
  | error e d₁ =>
    have hwrite : write (front' ++ [name']) bs d = .error e d₁ := bind_of_error hprovide
    rw [stateAfter_of_error hwrite, provide_eq_error hprovide]
    exact ⟨hfile, rfl⟩
  | ok id' d₁ =>
    obtain ⟨hne', hfile₁, hcontent₁⟩ := hd.provide_ne hne hfile hprovide
    have hwrite : write (front' ++ [name']) bs d = .ok () (d₁.change id' fun _ => .ofBytes bs) :=
      bind_of_ok hprovide
    have hrewrites := d₁.rewrites_change id' fun _ => .ofBytes bs
    rw [stateAfter_of_ok hwrite]
    exact ⟨(hrewrites.file_eq _).trans hfile₁, (hrewrites.content _ hne'.symm).trans hcontent₁⟩

theorem discard (hd : d.Orderly) (path : Path) : (d.discard path).Orderly := by
  rcases d.discard_eq path with h | ⟨place, id, -, h⟩
  · rwa [h]
  · rw [h]
    exact hd.without place

/-- Taking away one name leaves the file under another name where it is. -/
theorem discard_ne (hne : name' ≠ name) (hfile : d.file (front ++ [name]) = .ok id) (front' : Path) :
    (d.discard (front' ++ [name'])).file (front ++ [name]) = .ok id ∧
      (d.discard (front' ++ [name'])).content id = d.content id := by
  obtain ⟨place, hfind⟩ := find_of_file hfile
  obtain ⟨dir, rfl, hnode⟩ := nodes_of_find hfind
  rcases d.discard_eq (front' ++ [name']) with h | ⟨place', id', hfind', h⟩
  · rw [h]
    exact ⟨hfile, rfl⟩
  · rw [h]
    obtain ⟨dir', rfl, hnode'⟩ := nodes_of_find hfind'
    have hplace : dir ++ [name] ≠ dir' ++ [name'] := concat_ne_concat dir dir' hne.symm
    refine ⟨file_mono hfind rfl ?_ ((getElem?_nodes_without_ne hplace).trans hnode), rfl⟩
    intro p hp
    by_cases hplace' : p = dir' ++ [name']
    · rw [hplace', hnode'] at hp
      cases hp
    · exact (getElem?_nodes_without_ne hplace').trans hp

end Orderly

/-! ### Steps -/

theorem preserves_provide (path : Path) :
    Preserves Orderly (provide path) fun _ => True := by
  apply Preserves.of_outcomes
  · intro d id d' hd h
    exact ⟨hd.provide h, trivial⟩
  · intro d e d' hd h
    rwa [provide_eq_error h]

theorem preserves_write (path : Path) (bs : Bytes) :
    Preserves Orderly (write path bs) fun _ => True :=
  (preserves_provide path).bind fun id _ => .modify fun _ hd => hd.change id _

theorem preserves_setLength (id length : Nat) :
    Preserves Orderly (setLength id length) fun _ => True :=
  .modify fun _ hd => hd.change id _

theorem preserves_makeDirectory (path : Path) :
    Preserves Orderly (makeDirectory path) fun _ => True := by
  apply Preserves.of_outcomes
  · intro d _ d' hd h
    obtain ⟨place, rfl⟩ := makeDirectory_eq_ok h
    exact ⟨hd.withDirectory place, trivial⟩
  · intro d e d' hd h
    rwa [makeDirectory_eq_error h]

theorem preserves_ensureDirectory (path : Path) :
    Preserves Orderly (ensureDirectory path) fun _ => True := by
  intro d hd
  have hmake := preserves_makeDirectory path
  refine ⟨?_, fun _ _ _ => trivial⟩
  cases h : makeDirectory path d with
  | ok _ d' =>
    simpa only [stateAfter, ensureDirectory, h] using (hmake.ok hd h).1
  | error e d' =>
    have hd' := hmake.error hd h
    simp only [stateAfter, ensureDirectory, h]
    cases d'.isDirectory path with
    | true => exact hd'
    | false => exact hd'

/-- Making directories ends at once, or makes one, or makes those above it first. -/
theorem makeDirectories_cases (path : Path) (d : Disk) :
    makeDirectories path d = .ok () d ∨ makeDirectories path d = ensureDirectory path d ∨
      path ≠ [] ∧ ∃ d₁, ensureDirectory path d = .error (.file .notFound) d₁ ∧
        makeDirectories path d = (do makeDirectories path.parent; ensureDirectory path : DiskM Unit) d₁ := by
  by_cases hsize : path.size ≤ 1
  · rw [makeDirectories, if_pos hsize]
    exact Or.inl rfl
  · have hne : path ≠ [] := by
      rintro rfl
      exact hsize (by simp [Path.size])
    have hmake := makeDirectories.eq_1 path d
    rw [if_neg hsize] at hmake
    split at hmake
    · next d₁ hensure => exact Or.inr (Or.inr ⟨hne, d₁, hensure, hmake⟩)
    · exact Or.inr (Or.inl hmake)

theorem preserves_makeDirectories (path : Path) :
    Preserves Orderly (makeDirectories path) fun _ => True := by
  induction hn : path.length using Nat.strongRecOn generalizing path with
  | ind n ih =>
    intro d hd
    refine ⟨?_, fun _ _ _ => trivial⟩
    have hensure := preserves_ensureDirectory path
    unfold stateAfter
    rcases makeDirectories_cases path d with h | h | ⟨hne, d₁, hfound, h⟩
    · rw [h]
      exact hd
    · rw [h]
      exact (hensure d hd).1
    · rw [h]
      have hparent := ih path.parent.length (hn ▸ Path.length_parent_lt hne) path.parent rfl
      exact ((hparent.bind fun _ _ => hensure) d₁ (hensure.error hd hfound)).1

end KeyedStore.Disk

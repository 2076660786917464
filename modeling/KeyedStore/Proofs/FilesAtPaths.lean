import KeyedStore.Proofs.Places

/-!
# Files at paths

A path that leads to a file ends in the name of the file, so asking for the file at the path gives it and
changes nothing. After some bytes were written to a path, the path leads to a file that holds them.
-/

namespace KeyedStore

namespace Path

variable {path front : Path} {name : String}

theorem eq_concat_of_last? (h : path.last? = some (front, name)) (hs : path.endsInSlash = false) :
    path = front ++ [name] ∧ name ≠ "" := by
  rcases List.eq_nil_or_concat path with rfl | ⟨init, part, rfl⟩
  · contradiction
  · rw [List.concat_eq_append] at h hs ⊢
    by_cases hpart : part = ""
    · subst hpart
      -- A path that is not only a slash would end in one.
      have hnil : init = [] := by
        simpa [endsInSlash] using hs
      subst hnil
      simp [last?] at h
    · rw [last?_concat init hpart] at h
      cases h
      exact ⟨rfl, hpart⟩

end Path

namespace Disk

variable {d d' d₁ : Disk} {path front : Path} {place above dir : Place} {name : String} {id : Nat}
  {bs : Bytes}

theorem follow_congr (hnodes : d'.nodes = d.nodes) (above : Place) (path : Path) :
    d'.follow above path = d.follow above path := by
  induction path generalizing above with
  | nil => rfl
  | cons part rest ih =>
    have hlookup : d'.lookup above part = d.lookup above part := by
      rw [lookup, lookup, hnodes]
    simp only [follow, hlookup, ih]

theorem Rewrites.file_eq (h : d.Rewrites d' id) (path : Path) : d'.file path = d.file path := by
  have hstart : d'.start path = d.start path := by
    rw [start, start, h.here]
  simp only [file, find, hstart, follow_congr h.nodes]

/-- A name at the end of a path to a directory stands for what the directory has under it. -/
theorem follow_concat (hfront : d.follow above front = .ok (dir, .directory)) (hidle : ¬ Path.isIdle name)
    (hup : name ≠ "..") (hname : d.lookup dir name = .ok (some (.file id))) :
    d.follow above (front ++ [name]) = .ok (dir ++ [name], .file id) := by
  rw [follow_append hfront, follow, if_neg hidle, if_neg hup]
  simp only [hname]
  rfl

/-- A path that leads to a file is a path to a directory and the name of the file. -/
theorem exists_concat_of_follow (h : d.follow above path = .ok (place, .file id)) :
    ∃ front name dir, path = front ++ [name] ∧ ¬ Path.isIdle name ∧ name ≠ ".." ∧
      d.follow above front = .ok (dir, .directory) ∧ d.lookup dir name = .ok (some (.file id)) := by
  induction path generalizing above with
  | nil =>
    rw [follow] at h
    cases h
  | cons part rest ih =>
    rw [follow] at h
    split at h
    · next hidle =>
      obtain ⟨front, name, dir, rfl, hname, hup, hfront, hfile⟩ := ih h
      exact ⟨part :: front, name, dir, rfl, hname, hup, by rw [follow, if_pos hidle, hfront], hfile⟩
    · next hidle =>
      split at h
      · next hparent =>
        obtain ⟨front, name, dir, rfl, hname, hup, hfront, hfile⟩ := ih h
        refine ⟨part :: front, name, dir, rfl, hname, hup, ?_, hfile⟩
        rw [follow, if_neg hidle, if_pos hparent, hfront]
      · next hparent =>
        split at h
        · contradiction
        · contradiction
        · next hdir =>
          obtain ⟨front, name, dir, rfl, hname, hup, hfront, hfile⟩ := ih h
          refine ⟨part :: front, name, dir, rfl, hname, hup, ?_, hfile⟩
          rw [follow, if_neg hidle, if_neg hparent]
          simp only [hdir, hfront]
        · next hfile =>
          split at h
          · next hlast =>
            cases h
            rw [List.isEmpty_iff.1 hlast]
            exact ⟨[], part, above, rfl, hidle, hparent, rfl, hfile⟩
          · contradiction

theorem find_of_file (h : d.file path = .ok id) : ∃ place, d.find path = .ok (place, .file id) := by
  rw [file] at h
  split at h
  · next place id' hfind =>
    cases h
    exact ⟨place, hfind⟩
  · contradiction
  · contradiction

theorem not_isIdle (hne : name ≠ "") (hdot : name ≠ ".") : ¬ Path.isIdle name := by
  simp [Path.isIdle, hne, hdot]

theorem exists_fault_of_file {e : Error} (h : d.file path = .error e) : ∃ fault, e = .file fault := by
  rw [file] at h
  split at h
  · contradiction
  · cases h
    exact ⟨_, rfl⟩
  · cases h
    exact ⟨_, rfl⟩

theorem start_eq_ok (h : d.start path = .ok above) :
    1 < path.size ∧ above = if path.isAbsolute then [] else d.here := by
  rw [start] at h
  split at h
  · contradiction
  · split at h
    · contradiction
    · split at h
      · contradiction
      · next hsize =>
        cases h
        exact ⟨Nat.not_le.1 hsize, rfl⟩

theorem find_eq_ok {node : Node} (h : d.find path = .ok (place, node)) :
    ∃ above, d.start path = .ok above ∧ d.follow above path = .ok (place, node) := by
  rw [find] at h
  cases hstart : d.start path with
  | error fault =>
    rw [hstart] at h
    contradiction
  | ok above =>
    rw [hstart] at h
    exact ⟨above, rfl, h⟩

theorem follow_of_slash (h : d.follow above (front ++ [""]) = .ok (place, .directory)) :
    d.follow above front = .ok (place, .directory) := by
  induction front generalizing above with
  | nil => exact h
  | cons part rest ih =>
    rw [List.cons_append, follow] at h
    rw [follow]
    split at h
    · next hidle => rw [if_pos hidle, ih h]
    · next hidle =>
      rw [if_neg hidle]
      split at h
      · next hup => rw [if_pos hup, ih h]
      · next hup =>
        rw [if_neg hup]
        split at h
        · contradiction
        · contradiction
        · exact ih h
        · simp at h

/-- A path that leads to a directory leads there also without a slash at its end. -/
theorem leads_of_find (h : d.find path = .ok (place, .directory)) :
    d.follow (d.origin path.base) path.base = .ok (place, .directory) := by
  obtain ⟨above, hstart, hfollow⟩ := find_eq_ok h
  obtain ⟨hsize, rfl⟩ := start_eq_ok hstart
  have hbase := Path.eq_base_or path
  rw [Path.isAbsolute_eq hsize] at hfollow
  simp only [decide_eq_true_eq] at hfollow
  generalize path.base = front at hbase hfollow ⊢
  rw [origin]
  rcases hbase with rfl | rfl
  · exact hfollow
  · exact follow_of_slash hfollow

/-- The file that a path to a directory and a name lead to is one of the directory. -/
theorem nodes_of_file_join (h : d.find path = .ok (place, .directory)) (hn : PlainName name)
    (hfile : d.file (path.join [name]) = .ok id) : d.nodes[place ++ [name]]? = some (.file id) := by
  obtain ⟨found, hfind⟩ := find_of_file hfile
  rw [Path.join_name] at hfind
  obtain ⟨above, hstart, hfollow⟩ := find_eq_ok hfind
  have habove : above = d.origin path.base := by
    rw [(start_eq_ok hstart).2, Path.isAbsolute_concat _ hn.ne_empty, origin]
    simp only [decide_eq_true_eq]
  rw [habove, follow_append (leads_of_find h), follow_name hn] at hfollow
  split at hfollow
  · contradiction
  · next node hnode =>
    cases hfollow
    exact hnode

/-- A file that is there is provided as it is. -/
theorem provide_of_file (h : d.file path = .ok id) : provide path d = .ok id d := by
  obtain ⟨place, hfind⟩ := find_of_file h
  obtain ⟨start, hstart, hfollow⟩ := find_eq_ok hfind
  obtain ⟨front, name, dir, rfl, hidle, hup, hfront, hfile⟩ := exists_concat_of_follow hfollow
  have hne : name ≠ "" ∧ name ≠ "." := by
    simpa [Path.isIdle] using hidle
  have hspot : d.spot (front ++ [name]) .isDirectory = .ok (dir, name) := by
    simp only [spot, hstart, bind, Except.bind, Path.last?_concat front hne.1, hfront, hne.2, hup,
      or_self, if_false]
    rfl
  simp only [provide, hspot, Path.endsInSlash_concat front hne.1, Bool.false_eq_true, if_false, hfile]

/-- Every name leads to a file that was made. -/
def Intact (d : Disk) : Prop :=
  ∀ (place : Place) (id : Nat), d.nodes[place]? = some (.file id) → id < d.contents.size

theorem intact_empty : ({} : Disk).Intact := by
  intro place id h
  simp at h

/-- The first file of a disk. -/
theorem provide_empty {name : String} (hn : PlainName name) (hs : name.utf8ByteSize < 200) :
    provide [name] {} = .ok 0 (({} : Disk).insertFile [name]) := by
  have hreaches : ({} : Disk).Reaches [] [] 200 := ⟨rfl, rfl, by decide⟩
  have hprovide := hreaches.provide_of_none hn hs (by simp)
  rw [Path.join_name] at hprovide
  exact hprovide

/-- A file that is alone on a disk is found. -/
theorem file_alone {name : String} (hn : PlainName name) (hs : name.utf8ByteSize < 200) (bs : Bytes) :
    (({} : Disk).withFile [name] bs).file [name] = .ok 0 := by
  have hreaches : (({} : Disk).withFile [name] bs).Reaches [] [] 200 := ⟨rfl, rfl, by decide⟩
  have hfile := hreaches.file_of_file hn hs getElem?_nodes_withFile_self
  rw [Path.join_name] at hfile
  exact hfile

theorem Intact.change (hd : d.Intact) (id : Nat) (f : Content → Content) : (d.change id f).Intact := by
  intro place id' h
  rw [size_change]
  exact hd place id' h

theorem Intact.insertFile (hd : d.Intact) (place : Place) : (d.insertFile place).Intact := by
  intro other id h
  have hsize : (d.insertFile place).contents.size = d.contents.size + 1 := Array.size_push _
  rw [hsize]
  by_cases ho : other = place
  · rw [ho, getElem?_nodes_insertFile_self] at h
    cases h
    exact Nat.lt_succ_self _
  · exact Nat.lt_succ_of_lt (hd other id ((d.getElem?_insert_ne _ ho).symm.trans h))

/-- A file is provided under the last name of a path, which stands for it already or for nothing. -/
theorem provide_eq_ok (h : provide path d = .ok id d') :
    ∃ front name dir, path = front ++ [name] ∧
      ((d.nodes[dir ++ [name]]? = some (.file id) ∧ d' = d) ∨
        (d.nodes[dir ++ [name]]? = none ∧ id = d.contents.size ∧ d' = d.insertFile (dir ++ [name]))) := by
  rw [provide] at h
  split at h
  · contradiction
  · next dir name hspot =>
    obtain ⟨start, front, -, hlast, -⟩ := spot_eq_ok hspot
    split at h
    · contradiction
    · next hslash =>
      obtain ⟨rfl, -⟩ := Path.eq_concat_of_last? hlast (Bool.not_eq_true _ ▸ hslash)
      refine ⟨front, name, dir, rfl, ?_⟩
      unfold lookup at h
      split at h
      · contradiction
      · next id' hnode =>
        cases h
        split at hnode
        · contradiction
        · exact Or.inl ⟨Except.ok.inj hnode, rfl⟩
      · contradiction
      · next hnode =>
        cases h
        split at hnode
        · contradiction
        · exact Or.inr ⟨Except.ok.inj hnode, rfl, rfl⟩

theorem provide_eq_error {e : Error} (h : provide path d = .error e d') : d' = d := by
  rw [provide] at h
  split at h
  · cases h
    rfl
  · split at h
    · cases h
      rfl
    · split at h
      · cases h
        rfl
      · contradiction
      · cases h
        rfl
      · contradiction

theorem exists_fault_of_provide {e : Error} (h : provide path d = .error e d') :
    ∃ fault, e = .file fault := by
  rw [provide] at h
  repeat' split at h
  all_goals cases h
  all_goals exact ⟨_, rfl⟩

theorem Intact.provide (hd : d.Intact) (h : Disk.provide path d = .ok id d') : d'.Intact := by
  obtain ⟨front, name, dir, -, ⟨-, rfl⟩ | ⟨-, -, rfl⟩⟩ := provide_eq_ok h
  · exact hd
  · exact hd.insertFile _

/-- What is provided at a path is the file there. -/
theorem file_of_provide (hd : d.Intact) (h : provide path d = .ok id d') :
    d'.file path = .ok id ∧ id < d'.contents.size := by
  rw [provide] at h
  split at h
  · contradiction
  · next dir name hspot =>
    obtain ⟨start, front, hstart, hlast, hfront, hdot, hup⟩ := spot_eq_ok hspot
    split at h
    · contradiction
    · next hslash =>
      obtain ⟨rfl, hne⟩ := Path.eq_concat_of_last? hlast (Bool.not_eq_true _ ▸ hslash)
      have hidle := not_isIdle hne hdot
      split at h
      · contradiction
      · next id' hfile =>
        cases h
        refine ⟨?_, ?_⟩
        · simp only [file, find, hstart, bind, Except.bind, follow_concat hfront hidle hup hfile]
        · rw [lookup] at hfile
          split at hfile
          · contradiction
          · exact hd _ _ (Except.ok.inj hfile)
      · contradiction
      · next hnone =>
        cases h
        rw [lookup] at hnone
        split at hnone
        · contradiction
        · next hshort =>
          have hfree : d.nodes[dir ++ [name]]? = none := Except.ok.inj hnone
          have hfront' : (d.insertFile (dir ++ [name])).follow start front = .ok (dir, .directory) :=
            follow_mono (d.directory_insert _ hfree) hfront
          have hfile : (d.insertFile (dir ++ [name])).lookup dir name =
              .ok (some (.file d.contents.size)) := by
            rw [lookup, if_neg hshort, getElem?_nodes_insertFile_self]
          have hstart' : (d.insertFile (dir ++ [name])).start (front ++ [name]) = .ok start := hstart
          refine ⟨?_, ?_⟩
          · simp only [file, find, hstart', bind, Except.bind, follow_concat hfront' hidle hup hfile]
          · simp [insertFile]

theorem content_insertFile (d : Disk) (place : Place) (id : Nat) :
    (d.insertFile place).content id = d.content id := by
  simp only [content, insertFile, Array.getElem?_push]
  split
  · next h => simp [h]
  · rfl

/-- A file that is made is empty, and one that was there is provided as it was. -/
theorem content_of_provide (hempty : ∀ file, d.file path = .ok file → d.content file = [])
    (hd : d.Intact) (h : provide path d = .ok id d') : d'.content id = [] := by
  have hfile := (file_of_provide hd h).1
  obtain ⟨front, name, dir, -, ⟨-, rfl⟩ | ⟨-, rfl, rfl⟩⟩ := provide_eq_ok h
  · exact hempty id hfile
  · rw [content_insertFile]
    simp [content]

/-- What is written to a path where a file can be provided is found there. -/
theorem write_of_provide (hd : d.Intact) (h : provide path d = .ok id d₁) (bs : Bytes) :
    ∃ d', write path bs d = .ok () d' ∧ d'.Intact ∧ d'.file path = .ok id ∧ d'.content id = bs := by
  obtain ⟨hfile, hsize⟩ := file_of_provide hd h
  refine ⟨d₁.change id fun _ => .ofBytes bs, ?_, (hd.provide h).change id _, ?_, ?_⟩
  · simp only [write, bind, EStateM.bind, h]
    rfl
  · exact ((d₁.rewrites_change id _).file_eq path).trans hfile
  · rw [content_change_self d₁ _ hsize, Content.bytes_ofBytes]

/-! ### Cutting -/

/-- A file cut to a length that it has, or more, begins as it did. -/
theorem content_cut {n : Nat} (h : n ≤ (d.content id).length) :
    (d.change id (·.resize n)).content id = (d.content id).take n := by
  by_cases hid : id < d.contents.size
  · rw [content_resize hid, Bytes.resize_of_le h]
  · simp [content, change, hid]

end Disk

end KeyedStore

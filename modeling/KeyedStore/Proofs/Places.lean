import KeyedStore.Disk

/-!
# Names behind a path

A path that leads to a directory can be followed by a name, and what stands there is what the
directory has under that name. Making a file or a directory, or changing the contents of a file,
takes no other name away and changes the contents of no other file, so paths go on leading where
they led.
-/

namespace KeyedStore

namespace Path

variable {path other : Path} {name : String}

/-- The path in front of a name that is joined to it. -/
def base (path : Path) : Path := if path.getLast? = some "" then path.dropLast else path

theorem join_name (path : Path) (name : String) : path.join [name] = path.base ++ [name] := by
  have hrel : isAbsolute [name] = false := by simp [isAbsolute]
  rw [join, hrel, if_neg Bool.false_ne_true, base]
  split <;> rfl

theorem size_append (path other : Path) : size (path ++ other) = size path + size other := by
  induction path with
  | nil => simp [size]
  | cons part rest ih => simp only [List.cons_append, size, ih, Nat.add_assoc]

theorem size_concat (path : Path) (name : String) :
    size (path ++ [name]) = size path + (name.utf8ByteSize + 1) := by
  rw [size_append, size, size, Nat.add_zero]

theorem base_concat (path : Path) (h : name ≠ "") : base (path ++ [name]) = path ++ [name] := by
  simp [base, h]

theorem last?_concat (path : Path) (h : name ≠ "") : last? (path ++ [name]) = some (path, name) := by
  simp [last?, h]

theorem endsInSlash_concat (path : Path) (h : name ≠ "") : endsInSlash (path ++ [name]) = false := by
  simp [endsInSlash, h]

theorem isAbsolute_concat (path : Path) (h : name ≠ "") :
    isAbsolute (path ++ [name]) = decide (path.head? = some "") := by
  cases path with
  | nil => simp [isAbsolute, h]
  | cons part rest => simp [isAbsolute]

/-- A path is what it is in front of a joined name, but for a slash at its end. -/
theorem eq_base_or (path : Path) : path = path.base ∨ path = path.base ++ [""] := by
  rw [base]
  split
  · next h =>
    obtain ⟨front, rfl⟩ := List.getLast?_eq_some_iff.1 h
    exact Or.inr (by rw [List.dropLast_concat])
  · exact Or.inl rfl

/-- Apart from the empty path, it is told from the front of a path whether it is absolute. -/
theorem isAbsolute_eq (h : 1 < path.size) : path.isAbsolute = decide (path.base.head? = some "") := by
  have hbase := eq_base_or path
  generalize path.base = front at hbase ⊢
  rcases hbase with rfl | rfl
  · match path with
    | [] => rfl
    | [part] =>
      have hpart : part ≠ "" := by
        rintro rfl
        simp [size] at h
      simp [isAbsolute, hpart]
    | part :: other :: rest => simp [isAbsolute]
  · cases front with
    | nil => simp [size] at h
    | cons part rest => simp [isAbsolute]

theorem eq_of_last? {front : Path} (h : last? path = some (front, name)) :
    name ≠ "" ∧ ∃ rest, path = front ++ name :: rest := by
  rw [last?] at h
  split at h
  · contradiction
  · next part back hd =>
    cases h
    have hne : (path.reverse.dropWhile (· = "")) ≠ [] := by
      rw [hd]
      exact List.cons_ne_nil _ _
    have hpart := List.head_dropWhile_not (p := fun part => decide (part = "")) (l := path.reverse) hne
    have hsplit := List.takeWhile_append_dropWhile (p := fun part => decide (part = ""))
      (l := path.reverse)
    simp only [hd, List.head_cons, decide_eq_false_iff_not] at hpart
    rw [hd] at hsplit
    have hpath := congrArg List.reverse hsplit
    rw [List.reverse_append, List.reverse_cons, List.reverse_reverse, List.append_assoc] at hpath
    exact ⟨hpart, _, hpath.symm⟩

end Path

/-- A name that stands for itself wherever it is put. -/
structure PlainName (name : String) : Prop where
  ne_empty : name ≠ ""
  ne_dot : name ≠ "."
  ne_up : name ≠ ".."
  clean : name.contains '\x00' = false
  short : name.utf8ByteSize ≤ Disk.maxNameLength

theorem PlainName.of_not_mem {name : String} (hname : name ≠ "" ∧ name ≠ "." ∧ name ≠ "..")
    (hclean : '\x00' ∉ name.toList) (hshort : name.utf8ByteSize ≤ Disk.maxNameLength) :
    PlainName name := by
  refine ⟨hname.1, hname.2.1, hname.2.2, ?_, hshort⟩
  rw [String.contains_char_eq]
  exact decide_eq_false hclean

namespace Disk

variable {d d' : Disk} {path p r : Path} {place above q : Place} {name : String} {room id n : Nat}
  {bs : Bytes}

/-! ### Following paths -/

theorem follow_append (h : d.follow above p = .ok (q, .directory)) (r : Path) :
    d.follow above (p ++ r) = d.follow q r := by
  induction p generalizing above with
  | nil =>
    rw [follow] at h
    cases h
    rfl
  | cons part rest ih =>
    rw [List.cons_append, follow]
    rw [follow] at h
    split at h
    · next hi => rw [if_pos hi]; exact ih h
    · next hi =>
      rw [if_neg hi]
      split at h
      · next hu => rw [if_pos hu]; exact ih h
      · next hu =>
        rw [if_neg hu]
        split at h
        · contradiction
        · contradiction
        · exact ih h
        · split at h <;> simp at h

/-- A path that leads to a directory leads there as long as no directory goes away. -/
theorem follow_mono (hdir : ∀ p : Place, d.nodes[p]? = some .directory → d'.nodes[p]? = some .directory)
    (h : d.follow above p = .ok (q, .directory)) : d'.follow above p = .ok (q, .directory) := by
  induction p generalizing above with
  | nil => exact h
  | cons part rest ih =>
    rw [follow] at h ⊢
    split at h
    · next hi => rw [if_pos hi]; exact ih h
    · next hi =>
      rw [if_neg hi]
      split at h
      · next hu => rw [if_pos hu]; exact ih h
      · next hu =>
        rw [if_neg hu]
        split at h
        · contradiction
        · contradiction
        · next hl =>
          have hl' : d'.lookup above part = .ok (some .directory) := by
            rw [lookup] at hl ⊢
            split at hl
            · contradiction
            · next hlong =>
              rw [if_neg hlong, hdir _ (by simpa using hl)]
          simp only [hl']
          exact ih h
        · split at h <;> simp at h

theorem lookup_plain (hn : PlainName name) (d : Disk) (place : Place) :
    d.lookup place name = .ok d.nodes[place ++ [name]]? :=
  if_neg (Nat.not_lt.2 hn.short)

theorem follow_name (hn : PlainName name) (d : Disk) (place : Place) :
    d.follow place [name] =
      match d.nodes[place ++ [name]]? with
      | none => .error .notFound
      | some node => .ok (place ++ [name], node) := by
  have hidle : Path.isIdle name = false := by simp [Path.isIdle, hn.ne_empty, hn.ne_dot]
  rw [follow, hidle, if_neg Bool.false_ne_true, if_neg hn.ne_up, lookup_plain hn]
  cases d.nodes[place ++ [name]]? with
  | none => rfl
  | some node => cases node <;> rfl

/-- Where a path starts that is followed by a name. -/
def origin (d : Disk) (path : Path) : Place := if path.head? = some "" then [] else d.here

/-- A path leads to the directory at a place, and a name of fewer than `room` bytes can be put
behind it. -/
structure Reaches (d : Disk) (path : Path) (place : Place) (room : Nat) : Prop where
  leads : d.follow (d.origin path.base) path.base = .ok (place, .directory)
  clean : path.base.any (·.contains '\x00') = false
  short : path.base.size + room ≤ maxPathSize

namespace Reaches

theorem start (h : d.Reaches path place room) (hn : PlainName name) (hs : name.utf8ByteSize < room) :
    d.start (path.join [name]) = .ok (d.origin path.base) := by
  have hshort := h.short
  have hpos : 0 < name.utf8ByteSize := by
    rw [Nat.pos_iff_ne_zero]
    exact fun he => hn.ne_empty (String.utf8ByteSize_eq_zero_iff.1 he)
  have hany : (path.base ++ [name]).any (·.contains '\x00') = false := by
    rw [List.any_append, h.clean, List.any_cons, hn.clean]
    rfl
  rw [Path.join_name, Disk.start, hany, if_neg Bool.false_ne_true, Path.size_concat,
    if_neg (by omega), if_neg (by omega), Path.isAbsolute_concat _ hn.ne_empty, origin]
  simp only [decide_eq_true_eq]

/-- What stands behind the path under a name. -/
theorem find (h : d.Reaches path place room) (hn : PlainName name) (hs : name.utf8ByteSize < room) :
    d.find (path.join [name]) =
      match d.nodes[place ++ [name]]? with
      | none => .error .notFound
      | some node => .ok (place ++ [name], node) := by
  have hf : d.follow (d.origin path.base) (path.join [name]) = d.follow place [name] := by
    rw [Path.join_name, follow_append h.leads]
  simp only [Disk.find, h.start hn hs, bind, Except.bind, hf, follow_name hn]

theorem spot (h : d.Reaches path place room) (hn : PlainName name) (hs : name.utf8ByteSize < room)
    (unnamed : FileFault) : d.spot (path.join [name]) unnamed = .ok (place, name) := by
  have hl : Path.last? (path.join [name]) = some (path.base, name) := by
    rw [Path.join_name, Path.last?_concat _ hn.ne_empty]
  simp only [Disk.spot, h.start hn hs, bind, Except.bind, hl, h.leads, hn.ne_dot, hn.ne_up,
    or_self, if_false]
  rfl

theorem mono (h : d.Reaches path place room)
    (hdir : ∀ p : Place, d.nodes[p]? = some .directory → d'.nodes[p]? = some .directory)
    (hhere : d'.here = d.here) : d'.Reaches path place room where
  leads := by
    have ho : d'.origin path.base = d.origin path.base := by rw [origin, origin, hhere]
    rw [ho]
    exact follow_mono hdir h.leads
  clean := h.clean
  short := h.short

/-- The path of a directory behind the path leads to it. -/
theorem child (h : d.Reaches path place room) (hn : PlainName name)
    (hs : name.utf8ByteSize + 1 + n ≤ room) (hdir : d.nodes[place ++ [name]]? = some .directory) :
    d.Reaches (path.join [name]) (place ++ [name]) n where
  leads := by
    have ho : d.origin (path.base ++ [name]) = d.origin path.base := by
      rw [origin, origin]
      cases hb : path.base with
      | nil => simp [hn.ne_empty]
      | cons part rest => rfl
    rw [Path.join_name, Path.base_concat _ hn.ne_empty, ho, follow_append h.leads, follow_name hn,
      hdir]
  clean := by
    rw [Path.join_name, Path.base_concat _ hn.ne_empty, List.any_append, h.clean, List.any_cons,
      hn.clean]
    rfl
  short := by
    have := h.short
    rw [Path.join_name, Path.base_concat _ hn.ne_empty, Path.size_concat]
    omega

end Reaches

/-! ### Contents -/

/-- The number of the file at a place. -/
def fileAt (d : Disk) (p : Place) : Nat :=
  match d.nodes[p]? with
  | some (.file id) => id
  | _ => 0

theorem fileAt_eq {p : Place} (h : d.nodes[p]? = some (.file id)) : d.fileAt p = id := by
  rw [fileAt, h]

@[simp] theorem size_change (d : Disk) (id : Nat) (f : Content → Content) :
    (d.change id f).contents.size = d.contents.size := by
  simp [change]

theorem content_change_ne {other : Nat} (d : Disk) (f : Content → Content) (h : other ≠ id) :
    (d.change id f).content other = d.content other := by
  simp [content, change, Array.getElem?_modify, Ne.symm h]

theorem content_change_self (d : Disk) (f : Content → Content) (h : id < d.contents.size) :
    (d.change id f).content id = (f d.contents[id]).bytes := by
  simp [content, change, Array.getElem_modify, h]

theorem content_eq (h : id < d.contents.size) : d.content id = d.contents[id].bytes := by
  simp [content, h]

theorem content_change_ofBytes (h : id < d.contents.size) (f : Bytes → Bytes) :
    (d.change id fun c => .ofBytes (f c.bytes)).content id = f (d.content id) := by
  rw [content_change_self d _ h, Content.bytes_ofBytes, content_eq h]

theorem content_resize (h : id < d.contents.size) (n : Nat) :
    (d.change id (·.resize n)).content id = Bytes.resize n (d.content id) := by
  rw [content_change_self d _ h, Content.bytes_resize, content_eq h]

theorem content_writeAt (h : id < d.contents.size) (new : Bytes) :
    (d.change id (·.writeAt (d.length id) new)).content id = d.content id ++ new := by
  rw [content_change_self d _ h, Content.bytes_writeAt, ← length_content, content_eq h,
    Bytes.writeAt_length]

/-- A disk that differs from another in the contents of one file at most. -/
structure Rewrites (d d' : Disk) (id : Nat) : Prop where
  nodes : d'.nodes = d.nodes
  here : d'.here = d.here
  size : d'.contents.size = d.contents.size
  content : ∀ other ≠ id, d'.content other = d.content other

theorem Rewrites.refl (d : Disk) (id : Nat) : d.Rewrites d id := ⟨rfl, rfl, rfl, fun _ _ => rfl⟩

theorem Rewrites.trans {d'' : Disk} (h : d.Rewrites d' id) (h' : d'.Rewrites d'' id) :
    d.Rewrites d'' id :=
  ⟨h'.nodes.trans h.nodes, h'.here.trans h.here, h'.size.trans h.size,
    fun other hne => (h'.content other hne).trans (h.content other hne)⟩

theorem rewrites_change (d : Disk) (id : Nat) (f : Content → Content) :
    d.Rewrites (d.change id f) id :=
  ⟨rfl, rfl, d.size_change id f, fun _ hne => d.content_change_ne f hne⟩

theorem Rewrites.fileAt_eq (h : d.Rewrites d' id) (p : Place) : d'.fileAt p = d.fileAt p := by
  rw [fileAt, fileAt, h.nodes]

/-! ### Files -/

def withFile (d : Disk) (place : Place) (bs : Bytes) : Disk :=
  (d.insertFile place).change d.contents.size fun _ => .ofBytes bs

theorem nodes_withFile :
    (d.withFile place bs).nodes = d.nodes.insert place (.file d.contents.size) := rfl

@[simp] theorem size_withFile : (d.withFile place bs).contents.size = d.contents.size + 1 := by
  simp [withFile, insertFile]

theorem content_withFile_self : (d.withFile place bs).content d.contents.size = bs := by
  rw [withFile, content_change_self _ _ (by simp [insertFile])]
  rfl

theorem content_withFile_of_lt (h : id < d.contents.size) :
    (d.withFile place bs).content id = d.content id := by
  rw [withFile, content_change_ne _ _ (by omega)]
  simp [content, insertFile, Array.getElem?_push, Nat.ne_of_lt h]

theorem getElem?_insert_ne (d : Disk) (node : Node) (h : q ≠ place) :
    (d.nodes.insert place node)[q]? = d.nodes[q]? := by
  have hc : compare place q ≠ .eq := fun he => h (Std.LawfulEqOrd.eq_of_compare he).symm
  rw [Std.TreeMap.getElem?_insert, if_neg hc]

/-- A name that was free takes no directory away. -/
theorem directory_insert (d : Disk) (node : Node) (hnone : d.nodes[q]? = none) (p : Place)
    (hp : d.nodes[p]? = some .directory) : (d.nodes.insert q node)[p]? = some .directory := by
  rw [d.getElem?_insert_ne, hp]
  rintro rfl
  rw [hnone] at hp
  contradiction

theorem getElem?_nodes_insertFile_self (d : Disk) (place : Place) :
    (d.insertFile place).nodes[place]? = some (.file d.contents.size) := by
  simp [insertFile]

theorem getElem?_nodes_withFile_self :
    (d.withFile place bs).nodes[place]? = some (.file d.contents.size) :=
  d.getElem?_nodes_insertFile_self place

theorem getElem?_nodes_withFile_ne (h : q ≠ place) :
    (d.withFile place bs).nodes[q]? = d.nodes[q]? := by
  rw [nodes_withFile, d.getElem?_insert_ne _ h]

def withDirectory (d : Disk) (place : Place) : Disk :=
  { d with nodes := d.nodes.insert place .directory }

theorem getElem?_nodes_withDirectory_self :
    (d.withDirectory place).nodes[place]? = some .directory := by
  simp [withDirectory]

theorem getElem?_nodes_withDirectory_ne (h : q ≠ place) :
    (d.withDirectory place).nodes[q]? = d.nodes[q]? :=
  d.getElem?_insert_ne _ h

/-- The disk without what stands at a place. -/
def without (d : Disk) (place : Place) : Disk := { d with nodes := d.nodes.erase place }

theorem getElem?_nodes_without_self : (d.without place).nodes[place]? = none := by
  rw [without, Std.TreeMap.getElem?_erase, Std.ReflOrd.compare_self, if_pos rfl]

theorem getElem?_nodes_without_ne (h : q ≠ place) : (d.without place).nodes[q]? = d.nodes[q]? := by
  have hc : compare place q ≠ .eq := fun he => h (Std.LawfulEqOrd.eq_of_compare he).symm
  rw [without, Std.TreeMap.getElem?_erase, if_neg hc]

theorem concat_ne_concat {other : String} (place place' : Place) (h : name ≠ other) :
    place ++ [name] ≠ place' ++ [other] := by
  intro he
  obtain ⟨-, hname⟩ := List.append_inj' he rfl
  exact h (List.singleton_inj.1 hname)

theorem concat_ne {other : String} (place : Place) (h : name ≠ other) :
    place ++ [name] ≠ place ++ [other] :=
  concat_ne_concat place place h

/-- No directory comes into being in the directory at a place. -/
def AddsNoDirectory (d d' : Disk) (place : Place) : Prop :=
  ∀ name, d'.nodes[place ++ [name]]? = some .directory → d.nodes[place ++ [name]]? = some .directory

/-- A disk that differs from another only in files of the directory at a place and in newer files. -/
structure Spares (d d' : Disk) (place : Place) : Prop where
  here : d'.here = d.here
  directories : ∀ p : Place, d.nodes[p]? = some .directory → d'.nodes[p]? = some .directory
  nodes : ∀ p : Place, (∀ name, p ≠ place ++ [name]) → d'.nodes[p]? = d.nodes[p]?
  named : ∀ name id, d'.nodes[place ++ [name]]? = some (.file id) →
    d.nodes[place ++ [name]]? = some (.file id) ∨ d.contents.size ≤ id
  clear : d.AddsNoDirectory d' place
  size : d.contents.size ≤ d'.contents.size
  content : ∀ id < d.contents.size, d'.content id = d.content id

theorem Spares.refl (d : Disk) (place : Place) : d.Spares d place :=
  ⟨rfl, fun _ h => h, fun _ _ => rfl, fun _ _ h => Or.inl h, fun _ h => h, Nat.le_refl _,
    fun _ _ => rfl⟩

theorem Spares.trans {d'' : Disk} (h : d.Spares d' place) (h' : d'.Spares d'' place) :
    d.Spares d'' place where
  here := h'.here.trans h.here
  directories p hp := h'.directories p (h.directories p hp)
  nodes p hp := (h'.nodes p hp).trans (h.nodes p hp)
  named name id hn := by
    rcases h'.named name id hn with hn' | hid
    · exact h.named name id hn'
    · exact Or.inr (Nat.le_trans h.size hid)
  clear name hn := h.clear name (h'.clear name hn)
  size := Nat.le_trans h.size h'.size
  content id hid := (h'.content id (Nat.lt_of_lt_of_le hid h.size)).trans (h.content id hid)

theorem spares_withFile (bs : Bytes) (hnone : d.nodes[place ++ [name]]? = none) :
    d.Spares (d.withFile (place ++ [name]) bs) place where
  here := rfl
  directories := d.directory_insert _ hnone
  nodes p hp := getElem?_nodes_withFile_ne (hp name)
  named other id hid := by
    by_cases he : other = name
    · rw [he, getElem?_nodes_withFile_self] at hid
      cases hid
      exact Or.inr (Nat.le_refl _)
    · rw [getElem?_nodes_withFile_ne (concat_ne place he)] at hid
      exact Or.inl hid
  clear other hother := by
    by_cases he : other = name
    · rw [he, getElem?_nodes_withFile_self] at hother
      cases hother
    · rwa [getElem?_nodes_withFile_ne (concat_ne place he)] at hother
  size := by
    rw [size_withFile]
    omega
  content _ hid := content_withFile_of_lt hid

theorem spares_without (hfile : d.nodes[place ++ [name]]? = some (.file id)) :
    d.Spares (d.without (place ++ [name])) place where
  here := rfl
  directories p hp := by
    rw [getElem?_nodes_without_ne, hp]
    rintro rfl
    rw [hfile] at hp
    cases hp
  nodes p hp := getElem?_nodes_without_ne (hp name)
  named other id hid := by
    by_cases he : other = name
    · rw [he, getElem?_nodes_without_self] at hid
      contradiction
    · rw [getElem?_nodes_without_ne (concat_ne place he)] at hid
      exact Or.inl hid
  clear other hother := by
    by_cases he : other = name
    · rw [he, getElem?_nodes_without_self] at hother
      contradiction
    · rwa [getElem?_nodes_without_ne (concat_ne place he)] at hother
  size := Nat.le_refl _
  content _ _ := rfl

/-- A disk on which the files of another have their contents, but for one of them. -/
structure Retains (d d' : Disk) (id : Nat) : Prop where
  size : d.contents.size ≤ d'.contents.size
  content : ∀ other < d.contents.size, other ≠ id → d'.content other = d.content other

theorem Retains.trans {d'' : Disk} (h : d.Retains d' id) (h' : d'.Retains d'' id) :
    d.Retains d'' id where
  size := Nat.le_trans h.size h'.size
  content other hlt hne :=
    (h'.content other (Nat.lt_of_lt_of_le hlt h.size) hne).trans (h.content other hlt hne)

theorem Rewrites.retains (h : d.Rewrites d' id) : d.Retains d' id :=
  ⟨Nat.le_of_eq h.size.symm, fun other _ hne => h.content other hne⟩

theorem Spares.retains (h : d.Spares d' place) (id : Nat) : d.Retains d' id :=
  ⟨h.size, fun other hlt _ => h.content other hlt⟩

namespace Reaches

theorem provide_of_none (h : d.Reaches path place room) (hn : PlainName name)
    (hs : name.utf8ByteSize < room) (hnone : d.nodes[place ++ [name]]? = none) :
    provide (path.join [name]) d = .ok d.contents.size (d.insertFile (place ++ [name])) := by
  have hslash : Path.endsInSlash (path.join [name]) = false := by
    rw [Path.join_name, Path.endsInSlash_concat _ hn.ne_empty]
  simp only [provide, h.spot hn hs, hslash, Bool.false_eq_true, if_false, lookup_plain hn, hnone]

theorem provide_of_directory (h : d.Reaches path place room) (hn : PlainName name)
    (hs : name.utf8ByteSize < room) (hdir : d.nodes[place ++ [name]]? = some .directory) :
    provide (path.join [name]) d = .error (.file .isDirectory) d := by
  have hslash : Path.endsInSlash (path.join [name]) = false := by
    rw [Path.join_name, Path.endsInSlash_concat _ hn.ne_empty]
  simp only [provide, h.spot hn hs, hslash, Bool.false_eq_true, if_false, lookup_plain hn, hdir]

theorem write_of_none (h : d.Reaches path place room) (hn : PlainName name)
    (hs : name.utf8ByteSize < room) (hnone : d.nodes[place ++ [name]]? = none) (bs : Bytes) :
    write (path.join [name]) bs d = .ok () (d.withFile (place ++ [name]) bs) := by
  simp only [write, bind, EStateM.bind, h.provide_of_none hn hs hnone]
  rfl

theorem file_of_file (h : d.Reaches path place room) (hn : PlainName name)
    (hs : name.utf8ByteSize < room) (hfile : d.nodes[place ++ [name]]? = some (.file id)) :
    d.file (path.join [name]) = .ok id := by
  simp only [file, h.find hn hs, hfile]

theorem find_self (h : d.Reaches path place room) (hroom : 0 < room) (hsize : 1 < path.size) :
    d.find path = .ok (place, .directory) := by
  obtain ⟨hleads, hclean, hshort⟩ := h
  have hbase := Path.eq_base_or path
  have habs := Path.isAbsolute_eq hsize
  generalize path.base = front at hleads hclean hshort hbase habs
  have hmain : path.any (·.contains '\x00') = false ∧ path.size ≤ front.size + 1 ∧
      d.follow (d.origin front) path = .ok (place, .directory) := by
    rcases hbase with rfl | rfl
    · exact ⟨hclean, Nat.le_succ _, hleads⟩
    · refine ⟨?_, ?_, ?_⟩
      · rw [List.any_append, hclean]
        simp
      · rw [Path.size_concat]
        exact Nat.le_refl _
      · rw [follow_append hleads]
        rfl
  obtain ⟨hany, hlen, hfollow⟩ := hmain
  have hstart : d.start path = .ok (d.origin front) := by
    rw [Disk.start, hany, if_neg Bool.false_ne_true, if_neg (by omega), if_neg (by omega), habs,
      origin]
    simp only [decide_eq_true_eq]
  simp only [Disk.find, hstart, bind, Except.bind, hfollow]

end Reaches

/-! ### Directories -/

theorem isDirectory_of_find (h : d.find path = .ok (place, .directory)) :
    d.isDirectory path = true := by
  simp only [isDirectory, h]

theorem makeDirectory_eq_error {e : Error} (h : makeDirectory path d = .error e d') : d' = d := by
  rw [makeDirectory] at h
  split at h
  · cases h; rfl
  · split at h
    · cases h; rfl
    · cases h; rfl
    · contradiction

theorem spot_eq_ok {dir : Place} {unnamed : FileFault} (h : d.spot path unnamed = .ok (dir, name)) :
    ∃ start front, d.start path = .ok start ∧ path.last? = some (front, name) ∧
      d.follow start front = .ok (dir, .directory) ∧ name ≠ "." ∧ name ≠ ".." := by
  simp only [spot, bind, Except.bind] at h
  split at h
  · contradiction
  · next start hstart =>
    split at h
    · contradiction
    · next front name' hlast =>
      split at h
      · contradiction
      · next found hfront =>
        split at h
        · contradiction
        · next dir' =>
          split at h
          · contradiction
          · next hdots =>
            cases h
            exact ⟨start, front, hstart, hlast, hfront, not_or.1 hdots⟩

/-- Where a path leads to a directory none is made. -/
theorem makeDirectory_ne_ok (h : d.find path = .ok (place, .directory)) :
    makeDirectory path d ≠ .ok () d' := by
  intro hm
  rw [makeDirectory] at hm
  split at hm
  · contradiction
  · next dir name hspot =>
    split at hm
    · contradiction
    · contradiction
    · next hl =>
      obtain ⟨start, front, hstart, hlast, hfront, hdot, hup⟩ := spot_eq_ok hspot
      obtain ⟨hne, rest, rfl⟩ := Path.eq_of_last? hlast
      have hidle : Path.isIdle name = false := by simp [Path.isIdle, hne, hdot]
      simp only [Disk.find, hstart, bind, Except.bind] at h
      rw [follow_append hfront, follow, hidle, if_neg Bool.false_ne_true, if_neg hup, hl] at h
      contradiction

theorem ensureDirectory_of_find (h : d.find path = .ok (place, .directory)) :
    ensureDirectory path d = .ok () d := by
  rw [ensureDirectory]
  split
  · next e d' hm =>
    rw [makeDirectory_eq_error hm, isDirectory_of_find h, if_pos rfl]
  · next hm =>
    cases hr : makeDirectory path d with
    | ok _ d' => exact absurd hr (makeDirectory_ne_ok h)
    | error e d' => exact absurd hr (hm e d')

theorem makeDirectories_of_find (h : d.find path = .ok (place, .directory)) :
    makeDirectories path d = .ok () d := by
  rw [makeDirectories, ensureDirectory_of_find h]
  split <;> rfl

namespace Reaches

/-- Making the directory that a path leads to changes nothing. -/
theorem makeDirectories (h : d.Reaches path place room) (hroom : 0 < room) :
    Disk.makeDirectories path d = .ok () d := by
  by_cases hsize : path.size ≤ 1
  · rw [Disk.makeDirectories, if_pos hsize]
  · exact makeDirectories_of_find (h.find_self hroom (by omega))

theorem makeDirectories_of_none (h : d.Reaches path place room) (hn : PlainName name)
    (hs : name.utf8ByteSize < room) (hnone : d.nodes[place ++ [name]]? = none) :
    Disk.makeDirectories (path.join [name]) d = .ok () (d.withDirectory (place ++ [name])) := by
  have hpos : 0 < name.utf8ByteSize := by
    rw [Nat.pos_iff_ne_zero]
    exact fun he => hn.ne_empty (String.utf8ByteSize_eq_zero_iff.1 he)
  have hsize : ¬ (path.join [name]).size ≤ 1 := by
    rw [Path.join_name, Path.size_concat]
    omega
  have hmake : makeDirectory (path.join [name]) d = .ok () (d.withDirectory (place ++ [name])) := by
    simp only [makeDirectory, h.spot hn hs, lookup_plain hn, hnone]
    rfl
  rw [Disk.makeDirectories, if_neg hsize, ensureDirectory, hmake]

end Reaches

end Disk

end KeyedStore

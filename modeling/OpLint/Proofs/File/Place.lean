import OpLint.Proofs.File.Path
import OpLint.Proofs.File.Tree
import OpLint.Proofs.Verdict

/-!
# The place that a path leads to

Many paths lead to one file: they may be written differently, go up and down again, start in
another directory, or go through links. The place of a path is the list of names that leads there
from the root directory without a link. Two paths with one place have the same thing at their end.

What matters of following a path is how it is composed. Either its first part fails, and then it
fails in the same way whatever comes behind; or the first part leads somewhere, and what comes
behind is followed from there, with the links that are left. This is `resumes_locate`, and the
rest goes by it: idle segments change nothing, and a search extends the place of the directory
in which it starts by the names that it follows.
-/

namespace OpLint

theorem mem_of_lookup {α β : Type} [BEq α] [LawfulBEq α] {xs : List (α × β)} {a : α} {b : β}
    (h : xs.lookup a = some b) : (a, b) ∈ xs := by
  obtain ⟨before, after, rfl, -⟩ := List.lookup_eq_some_iff.1 h
  exact List.mem_append_right _ List.mem_cons_self

namespace Path

variable {p q : Path} {name : String}

/-- Whether a text can be the name of something in a directory. -/
def IsName (name : String) : Prop :=
  '/' ∉ name.toList ∧ name ≠ "" ∧ name ≠ "." ∧ name ≠ ".." ∧
    name.utf8ByteSize ≤ Machine.longestName

instance : Decidable (IsName name) :=
  inferInstanceAs (Decidable (_ ∧ _))

/-- The segments of a path that lead anywhere. -/
def steps (p : Path) : List String :=
  p.segments.filter (!isIdle ·)

theorem IsName.not_isIdle (h : IsName name) : ¬ isIdle name := by
  obtain ⟨-, hempty, hdot, -⟩ := h
  simp [isIdle, hempty, hdot]

theorem IsName.not_isAbsolute (h : IsName name) : ¬ (Path.mk name).isAbsolute := by
  rw [isAbsolute, String.startsWith_string_iff]
  exact fun hstart => h.1 (hstart.subset (by decide))

theorem segments_append_slash (text name : String) (h : '/' ∉ name.toList) :
    (Path.mk (text ++ "/" ++ name)).segments = (Path.mk text).segments ++ [name] := by
  have hlist : (text ++ "/" ++ name).toList = text.toList ++ '/' :: name.toList := by
    simp [String.toList_append]
  simp only [segments]
  rw [hlist, List.splitOn_append_cons_self, List.splitOn_eq_singleton h]
  simp

theorem segments_eq_singleton (h : '/' ∉ name.toList) : (Path.mk name).segments = [name] := by
  simp only [segments]
  rw [List.splitOn_eq_singleton h]
  simp

theorem steps_join (p : Path) (h : IsName name) : (p.join ⟨name⟩).steps = p.steps ++ [name] := by
  have hstep : [name].filter (!isIdle ·) = [name] := by
    rw [List.filter_cons_of_pos (by simpa using h.not_isIdle), List.filter_nil]
  obtain ⟨text⟩ := p
  rw [join, eq_false_of_ne_true h.not_isAbsolute, Bool.false_or]
  split
  · next hempty =>
      obtain rfl := String.isEmpty_iff.1 hempty
      rw [steps, segments_eq_singleton h.1]
      exact hstep
  · split
    · next hslash =>
        rw [← String.endsWith_toSlice, String.Slice.endsWith_string_iff,
          String.copy_toSlice] at hslash
        obtain ⟨before, hbefore⟩ := hslash
        obtain rfl : text = .ofList before ++ "/" ++ "" := by
          rw [← String.toList_inj, ← hbefore]
          simp [String.toList_append]
        -- the slash that is there already makes an idle segment of its own
        rw [steps, steps, segments_append_slash _ _ (by decide), List.filter_append,
          String.append_empty, segments_append_slash _ _ h.1, List.filter_append, hstep]
        simp [isIdle]
    · rw [steps, segments_append_slash _ _ h.1, List.filter_append, hstep]
      rfl

theorem steps_descend (p : Path) {names : List String} (h : ∀ name ∈ names, IsName name) :
    (p.descend names).steps = p.steps ++ names := by
  induction names generalizing p with
  | nil => rw [descend, List.foldl_nil, List.append_nil]
  | cons name names ih =>
      obtain ⟨hname, hnames⟩ := List.forall_mem_cons.1 h
      rw [descend, List.foldl_cons, ← descend, ih _ hnames, steps_join p hname, List.append_assoc,
        List.singleton_append]

end Path

/-- The segment that a component stands for. -/
def Component.segment? : Component → Option String
  | root | here => none
  | up => some ".."
  | name text => some text

theorem Component.segment?_ofSegment (segment : String) :
    (ofSegment segment).segment? = some segment := by
  rw [ofSegment]
  split
  · next h => rw [h, segment?]
  · rfl

theorem Path.steps_eq (p : Path) : p.steps = p.components.filterMap Component.segment? := by
  have hleading : p.leading.filterMap Component.segment? = [] := by
    rw [leading]
    repeat' split
    all_goals rfl
  have hback : Component.segment? ∘ Component.ofSegment = some :=
    funext Component.segment?_ofSegment
  rw [components, List.filterMap_append, hleading, List.nil_append, List.filterMap_map, hback,
    List.filterMap_some, steps]

/-! ## What is at a place -/

namespace Entry

variable {root e e' : Entry} {entries : List (String × Entry)} {names more : List String}
  {name : String}

/-- What is found by following names. Of several things of one name it is the first. -/
def find? : List String → Entry → Option Entry
  | [], e => some e
  | name :: names, directory entries => (entries.lookup name).bind (find? names)
  | _ :: _, file _ | _ :: _, device _ => none

/-- Whether a tree can be that of a machine: names in it can stand between slashes, and no two
things in a directory have one name. -/
structure Proper (root : Entry) : Prop where
  isName : ∀ names e, root.Reaches names e → ∀ name ∈ names, Path.IsName name
  nodup : ∀ names entries, root.Reaches names (directory entries) → (entries.map (·.1)).Nodup

theorem proper_file (content : ByteArray) : (file content).Proper where
  isName names e h := by
    cases h
    exact List.forall_mem_nil _
  nodup names entries h := by cases h

theorem proper_directory_iff :
    (directory entries).Proper ↔
      (∀ x ∈ entries, Path.IsName x.1 ∧ x.2.Proper) ∧ (entries.map (·.1)).Nodup := by
  constructor
  · refine fun h => ⟨fun x hx => ⟨h.isName [x.1] x.2 (.step hx (.refl _)) _ List.mem_cons_self,
      fun names e hreaches name hname => ?_, fun names below hreaches => ?_⟩,
      h.nodup [] entries (.refl _)⟩
    · exact h.isName _ e (.step hx hreaches) name (List.mem_cons_of_mem _ hname)
    · exact h.nodup _ below (.step hx hreaches)
  · rintro ⟨hentries, hnodup⟩
    constructor
    · intro names e hreaches
      rcases reaches_directory_iff.1 hreaches with ⟨rfl, -⟩ | ⟨x, hx, rest, rfl, hrest⟩
      · exact List.forall_mem_nil _
      · exact List.forall_mem_cons.2 ⟨(hentries x hx).1, (hentries x hx).2.isName rest e hrest⟩
    · intro names below hreaches
      rcases reaches_directory_iff.1 hreaches with ⟨-, heq⟩ | ⟨x, hx, rest, -, hrest⟩
      · cases heq
        exact hnodup
      · exact (hentries x hx).2.nodup rest below hrest

theorem Reaches.append (h : root.Reaches names e) (hmore : e.Reaches more e') :
    root.Reaches (names ++ more) e' := by
  induction h with
  | refl => exact hmore
  | step hmem _ ih => exact .step hmem (ih hmore)

theorem find?_append (names more : List String) (e : Entry) :
    find? (names ++ more) e = (find? names e).bind (find? more) := by
  induction names generalizing e with
  | nil => rfl
  | cons name names ih =>
      cases e with
      | file content | device content => rfl
      | directory entries =>
          rw [List.cons_append, find?, find?, Option.bind_assoc]
          exact congrArg _ (funext ih)

theorem reaches_of_find? (h : find? names e = some e') : e.Reaches names e' := by
  induction names generalizing e with
  | nil =>
      obtain rfl := Option.some.inj h
      exact .refl _
  | cons name names ih =>
      cases e with
      | file content | device content => cases h
      | directory entries =>
          obtain ⟨next, hnext, hrest⟩ := Option.bind_eq_some_iff.1 h
          exact .step (mem_of_lookup hnext) (ih hrest)

theorem lookup_of_mem (hmem : (name, e) ∈ entries) (hnodup : (entries.map (·.1)).Nodup) :
    entries.lookup name = some e := by
  obtain ⟨before, after, rfl⟩ := List.append_of_mem hmem
  refine List.lookup_eq_some_iff.2 ⟨before, after, rfl, fun x hx => bne_iff_ne.2 ?_⟩
  rw [List.map_append, List.map_cons] at hnodup
  obtain ⟨-, -, hapart⟩ := List.nodup_append.1 hnodup
  exact (hapart _ (List.mem_map_of_mem hx) _ List.mem_cons_self).symm

end Entry

namespace Machine

variable {m : Machine} {s s' : Spot} {e : Entry} {entries : List (String × Entry)}
  {links : Nat} {xs ys names : List String} {p q : Path}

/-! ## Spots in the tree -/

/-- The spots to which names lead from the root directory. -/
inductive Holds (m : Machine) : Spot → Prop
  | top : Holds m m.top
  | enter {s : Spot} {entries : List (String × Entry)} {name : String} {e : Entry} :
    Holds m s → s.entry = .directory entries → entries.lookup name = some e →
      Holds m (s.enter name e)

theorem place_enter (s : Spot) (name : String) (e : Entry) :
    (s.enter name e).place = s.place ++ [name] := by
  rw [Spot.place, Spot.enter, List.map_cons, List.reverse_cons, Spot.place]

theorem Holds.find? (h : m.Holds s) : Entry.find? s.place m.root = some s.entry := by
  induction h with
  | top => rfl
  | enter _ hentries hname ih =>
      rw [place_enter, Entry.find?_append, ih, Option.bind_some, hentries, Entry.find?, hname]
      rfl

theorem Holds.parent (h : m.Holds s) : m.Holds s.parent := by
  cases h with
  | top => exact .top
  | enter h _ _ => exact h

/-! ## Following segments -/

/-- Where a link leads. -/
def detour (m : Machine) : Nat → Spot → Path → List String → Except FileError Spot
  | 0, _, _, _ => .error .tooManyLinks
  | links + 1, s, target, segments =>
    match FileSystem.refusal? target with
    | some cause => .error cause
    | none => m.locate links (if target.isAbsolute then m.top else s) (target.segments ++ segments)

theorem locate_eq (m : Machine) (links : Nat) : m.locate links = m.follow (m.detour links) := by
  cases links <;> rfl

theorem locate_nil (m : Machine) (links : Nat) (s : Spot) : m.locate links s [] = .ok s := by
  rw [locate_eq, follow]

theorem locate_cons (m : Machine) (links : Nat) (s : Spot) (segment : String) (xs : List String) :
    m.locate links s (segment :: xs) =
      match s.entry with
      | .file _ | .device _ => .error .notDirectory
      | .directory entries =>
        if Path.isIdle segment then m.locate links s xs
        else if segment = ".." then m.locate links s.parent xs
        else if longestName < segment.utf8ByteSize then .error .nameTooLong
        else
          match m.links.lookup (s.place ++ [segment]) with
          | some target => m.detour links s target xs
          | none =>
            match entries.lookup segment with
            | none => .error .notFound
            | some e => m.locate links (s.enter segment e) xs := by
  rw [locate_eq]
  rfl

theorem exists_directory_of_locate_cons {segment : String}
    (h : m.locate links s (segment :: xs) = .ok s') : ∃ entries, s.entry = .directory entries := by
  rw [locate_cons] at h
  split at h
  · cases h
  · cases h
  · next entries hentries => exact ⟨entries, hentries⟩

/-- An idle segment changes nothing in a directory. -/
theorem locate_idle_cons {segment : String} (hidle : Path.isIdle segment)
    (hentries : s.entry = .directory entries) :
    m.locate links s (segment :: xs) = m.locate links s xs := by
  rw [locate_cons, hentries]
  exact if_pos hidle

/-- A name that is no link is looked up in its directory. -/
theorem locate_name_cons {name : String} (hname : Path.IsName name)
    (hentries : s.entry = .directory entries) (hlink : m.links.lookup (s.place ++ [name]) = none) :
    m.locate links s (name :: xs) =
      (entries.lookup name).elim (.error .notFound) fun e =>
        m.locate links (s.enter name e) xs := by
  obtain ⟨-, -, -, hdots, hsize⟩ := id hname
  rw [locate_cons, hentries]
  dsimp only
  rw [if_neg hname.not_isIdle, if_neg hdots, if_neg (Nat.not_lt.2 hsize), hlink]
  cases entries.lookup name <;> rfl

theorem holds_of_follow {detour : Spot → Path → List String → Except FileError Spot}
    (hdetour : ∀ s target segments s', m.Holds s → detour s target segments = .ok s' → m.Holds s')
    (h : m.Holds s) (hfollow : m.follow detour s xs = .ok s') : m.Holds s' := by
  induction xs generalizing s with
  | nil =>
      rw [follow] at hfollow
      obtain rfl := Except.ok.inj hfollow
      exact h
  | cons segment xs ih =>
      rw [follow] at hfollow
      split at hfollow
      · cases hfollow
      · cases hfollow
      · next entries hentries =>
          split at hfollow
          · exact ih h hfollow
          split at hfollow
          · exact ih h.parent hfollow
          split at hfollow
          · cases hfollow
          split at hfollow
          · exact hdetour _ _ _ _ h hfollow
          split at hfollow
          · cases hfollow
          · next e hname => exact ih (h.enter hentries hname) hfollow

theorem holds_of_locate (h : m.Holds s) (hlocate : m.locate links s xs = .ok s') : m.Holds s' := by
  induction links generalizing s s' xs with
  | zero =>
      refine holds_of_follow (fun _ _ _ _ _ hdetour => ?_) h hlocate
      cases hdetour
  | succ links ih =>
      refine holds_of_follow (fun s target segments s' hs hdetour => ?_) h hlocate
      split at hdetour
      · cases hdetour
      · refine ih ?_ hdetour
        split
        · exact .top
        · exact hs

/-- Whether it is settled where the segments that are left are followed from, or that they are
not followed at all. -/
def Resumes (m : Machine) (rest : List String → Except FileError Spot) : Prop :=
  (∃ s links, ∀ ys, rest ys = m.locate links s ys) ∨ ∃ cause, ∀ ys, rest ys = .error cause

theorem resumes_locate_of_detour
    (hdetour : ∀ s target xs, m.Resumes fun ys => m.detour links s target (xs ++ ys))
    (s : Spot) (xs : List String) : m.Resumes fun ys => m.locate links s (xs ++ ys) := by
  induction xs generalizing s with
  | nil => exact .inl ⟨s, links, fun _ => rfl⟩
  | cons segment xs ih =>
      simp only [List.cons_append, locate_cons]
      cases s.entry with
      | file content | device content => exact .inr ⟨_, fun _ => rfl⟩
      | directory entries =>
          dsimp only
          split
          · exact ih s
          split
          · exact ih s.parent
          split
          · exact .inr ⟨_, fun _ => rfl⟩
          cases m.links.lookup (s.place ++ [segment]) with
          | some target => exact hdetour s target xs
          | none =>
              cases entries.lookup segment with
              | none => exact .inr ⟨_, fun _ => rfl⟩
              | some e => exact ih (s.enter segment e)

/-- The first part of a path settles where the rest of it is followed from. -/
theorem resumes_locate (m : Machine) (links : Nat) (s : Spot) (xs : List String) :
    m.Resumes fun ys => m.locate links s (xs ++ ys) := by
  induction links generalizing s xs with
  | zero => exact resumes_locate_of_detour (fun _ _ _ => .inr ⟨_, fun _ => rfl⟩) s xs
  | succ links ih =>
      refine resumes_locate_of_detour (fun s target xs => ?_) s xs
      simp only [detour]
      cases FileSystem.refusal? target with
      | some cause => exact .inr ⟨cause, fun _ => rfl⟩
      | none =>
          simp only [← List.append_assoc]
          exact ih _ (target.segments ++ xs)

/-- A path that can be followed leads somewhere with its first part, and from there on with the
rest; and whatever else is put behind the first part is followed from there. -/
theorem exists_of_locate_append (h : m.locate links s (xs ++ ys) = .ok s') :
    ∃ mid links', m.locate links s xs = .ok mid ∧ m.locate links' mid ys = .ok s' ∧
      ∀ zs, m.locate links s (xs ++ zs) = m.locate links' mid zs := by
  rcases m.resumes_locate links s xs with ⟨mid, links', hmid⟩ | ⟨cause, hcause⟩
  · have hfirst : m.locate links s (xs ++ []) = m.locate links' mid [] := hmid []
    rw [List.append_nil, locate_nil] at hfirst
    exact ⟨mid, links', hfirst, (hmid ys).symm.trans h, hmid⟩
  · cases (hcause ys).symm.trans h

theorem locate_steps (h : m.locate links s (xs ++ ys) = .ok s') :
    m.locate links s (xs ++ ys.filter (!Path.isIdle ·)) = .ok s' := by
  induction ys generalizing xs with
  | nil => exact h
  | cons segment ys ih =>
      by_cases hidle : Path.isIdle segment
      · rw [List.filter_cons_of_neg (by simp [hidle])]
        obtain ⟨mid, links', -, hrest, hmid⟩ := exists_of_locate_append h
        refine ih ?_
        obtain ⟨entries, hentries⟩ := exists_directory_of_locate_cons hrest
        rwa [hmid, ← locate_idle_cons hidle hentries]
      · rw [List.filter_cons_of_pos (by simp [hidle]), ← List.singleton_append,
          ← List.append_assoc]
        refine ih ?_
        rwa [List.append_assoc, List.singleton_append]

/-! ## The place of a path -/

/-- Where the steps of a path lead, also if it is too long to be looked up, or goes on behind a
file with idle segments. -/
def spot? (m : Machine) (p : Path) : Option Spot :=
  (m.locate mostLinks m.top p.steps).toOption

/-- The names that lead there from the root directory. -/
def place? (m : Machine) (p : Path) : Option (List String) :=
  (m.spot? p).map Spot.place

/-- Whether two paths lead to one place. -/
def SamePlace (m : Machine) (p q : Path) : Prop :=
  ∃ place, m.place? p = some place ∧ m.place? q = some place

theorem spot?_eq_some_iff : m.spot? p = some s ↔ m.locate mostLinks m.top p.steps = .ok s :=
  toOption_eq_some_iff

theorem place?_eq (h : m.spot? p = some s) : m.place? p = some s.place := by
  rw [place?, h, Option.map_some]

theorem spot?_of_ofMachine (h : FileSystem.ofMachine m p = .ok e) :
    ∃ s, m.spot? p = some s ∧ s.entry = e := by
  rw [FileSystem.ofMachine] at h
  split at h
  · cases h
  · obtain ⟨s, hs, hentry⟩ := map_eq_ok_iff.1 h
    rw [← List.nil_append p.segments] at hs
    exact ⟨s, spot?_eq_some_iff.2 (locate_steps hs), hentry⟩

theorem spot?_eq_of_same (h : p.same q) : m.spot? p = m.spot? q := by
  rw [spot?, spot?, Path.steps_eq, Path.steps_eq, Path.same_iff.1 h]

theorem holds_of_spot? (h : m.spot? p = some s) : m.Holds s :=
  holds_of_locate .top (spot?_eq_some_iff.1 h)

/-- At one place there is one thing. -/
theorem SamePlace.entry_eq (h : m.SamePlace p q) (hp : m.spot? p = some s)
    (hq : m.spot? q = some s') : s.entry = s'.entry := by
  obtain ⟨place, hplace, hplace'⟩ := h
  rw [place?_eq hp] at hplace
  rw [place?_eq hq] at hplace'
  have hsame : s.place = s'.place := Option.some.inj (hplace.trans hplace'.symm)
  have hfind := (holds_of_spot? hp).find?
  rw [hsame, (holds_of_spot? hq).find?] at hfind
  exact (Option.some.inj hfind).symm

/-- A name that is no link leads on from a place by itself. -/
theorem exists_place?_of_join {name : String} (hname : Path.IsName name) {place : List String}
    (h : m.place? (p.join ⟨name⟩) = some place)
    (hlink : ∀ start, m.place? p = some start → m.links.lookup (start ++ [name]) = none) :
    ∃ start, m.place? p = some start ∧ place = start ++ [name] := by
  obtain ⟨s, hs, rfl⟩ := Option.map_eq_some_iff.1 h
  rw [spot?_eq_some_iff, Path.steps_join p hname] at hs
  obtain ⟨mid, links, hmid, hlast, -⟩ := exists_of_locate_append hs
  have hstart := place?_eq (spot?_eq_some_iff.2 hmid)
  refine ⟨mid.place, hstart, ?_⟩
  obtain ⟨entries, hentries⟩ := exists_directory_of_locate_cons hlast
  rw [locate_name_cons hname hentries (hlink _ hstart)] at hlast
  cases hlookup : entries.lookup name with
  | none =>
      rw [hlookup] at hlast
      cases hlast
  | some e =>
      rw [hlookup, Option.elim_some, locate_nil] at hlast
      rw [← Except.ok.inj hlast, place_enter]

/-! ## Searches -/

/-- Whether a machine can be real: its tree can, and no link stands where something else does. -/
structure Proper (m : Machine) : Prop where
  root : m.root.Proper
  links : ∀ x ∈ m.links, m.root.find? x.1 = none

theorem Proper.isName (hm : m.Proper) (hs : m.Holds s) (h : s.entry.Reaches names e) :
    ∀ name ∈ names, Path.IsName name := fun name hname =>
  hm.root.isName _ e ((Entry.reaches_of_find? hs.find?).append h) name
    (List.mem_append_right _ hname)

theorem Proper.lookup (hm : m.Proper) (hs : m.Holds s) (hentries : s.entry = .directory entries)
    {name : String} (h : (name, e) ∈ entries) :
    entries.lookup name = some e ∧ m.links.lookup (s.place ++ [name]) = none := by
  have hreaches := Entry.reaches_of_find? hs.find?
  rw [hentries] at hreaches
  have hname := Entry.lookup_of_mem h (hm.root.nodup _ entries hreaches)
  refine ⟨hname, Option.eq_none_iff_forall_ne_some.2 fun target htarget => ?_⟩
  have hnone := hm.links _ (mem_of_lookup htarget)
  rw [← place_enter s name e, (hs.enter hentries hname).find?] at hnone
  cases hnone

/-- The names that a search follows meet no link. -/
theorem Proper.locate_names (hm : m.Proper) (hs : m.Holds s) (h : s.entry.Reaches names e) :
    ∃ s', m.locate links s names = .ok s' ∧ s'.place = s.place ++ names ∧ s'.entry = e := by
  induction names generalizing s with
  | nil =>
      refine ⟨s, m.locate_nil links s, (List.append_nil _).symm, ?_⟩
      generalize s.entry = e' at h
      cases h
      rfl
  | cons name names ih =>
      have hname := hm.isName hs h name List.mem_cons_self
      generalize hentries : s.entry = e' at h
      cases h with
      | step hmem hrest =>
          obtain ⟨hlookup, hlinks⟩ := hm.lookup hs hentries hmem
          obtain ⟨s', hs', hplace, hentry⟩ := ih (hs.enter hentries hlookup) hrest
          refine ⟨s', ?_, ?_, hentry⟩
          · rw [locate_name_cons hname hentries hlinks, hlookup]
            exact hs'
          · rw [hplace, place_enter, List.append_assoc, List.singleton_append]

/-- The path of what a search comes by leads there, and its place goes on from that of the
directory in which the search starts. -/
theorem Proper.spot?_descend (hm : m.Proper) (hp : m.spot? p = some s)
    (h : s.entry.Reaches names e) :
    ∃ s', m.spot? (p.descend names) = some s' ∧ s'.place = s.place ++ names ∧ s'.entry = e := by
  have hs := holds_of_spot? hp
  have hlocate := spot?_eq_some_iff.1 hp
  rw [← List.append_nil p.steps] at hlocate
  obtain ⟨mid, links, hmid, hnil, hgoing⟩ := exists_of_locate_append hlocate
  rw [locate_nil] at hnil
  obtain rfl := Except.ok.inj hnil
  obtain ⟨s', hs', hspot⟩ := hm.locate_names hs h
  refine ⟨s', spot?_eq_some_iff.2 ?_, hspot⟩
  rw [Path.steps_descend p (hm.isName hs h), hgoing]
  exact hs'

end Machine

end OpLint

import AlmightyReview.Lib.Json
import AlmightyReview.Lib.Scan
import Mathlib.Data.List.TakeWhile
import Mathlib.Logic.Relation

/-!
# Members of a snapshot

A vendor reviews a snapshot of the repository, which is extracted from an archive after each member
of it was checked.

* `safeMember`: the check of one member, which normalises the target of a link as a text.
* `Step`: one step of a file system that resolves a path in the tree of the members. It takes `..`
  from the directory to which the links before it have led.
* `stays_of_safeMember`: the target of a link that is accepted does not climb above the root as a
  text.
* `inside_of_steps`: no path leaves the tree when `..` stands behind no link (`Straight`).
-/

namespace Snapshot

/-! ## Paths -/

def dot : Text := ['.']

def dotDot : Text := ['.', '.']

def isAbsolute (p : Text) : Bool := p.startsWith ['/']

/-- A component that `PurePosixPath` and the file system pass over. -/
def IsBlank (c : Text) : Prop := c = [] ∨ c = dot

instance (c : Text) : Decidable (IsBlank c) := inferInstanceAs (Decidable (_ ∨ _))

/-- `PurePosixPath(p).parts` of a relative path. -/
def parts (p : Text) : List Text := (p.splitOn '/').filter fun c => ¬IsBlank c

/-- `posixpath.join`. -/
def posixJoin (a b : Text) : Text :=
  if isAbsolute b then b else if a = [] ∨ a.getLast? = some '/' then a ++ b else a ++ '/' :: b

/-- A path without the slashes at its end. -/
def stripSlashes (p : Text) : Text := (p.reverse.dropWhile (· = '/')).reverse

/-- `posixpath.dirname`. -/
def dirname (p : Text) : Text :=
  let head := (p.reverse.dropWhile (· ≠ '/')).reverse
  if head.all (· = '/') then head else stripSlashes head

/-- The loop of `posixpath.normpath` over the components; the new path has its last one first. -/
def normLoop (rooted : Bool) : List Text → List Text → List Text
  | st, [] => st.reverse
  | st, c :: cs =>
    if IsBlank c then normLoop rooted st cs
    else if c ≠ dotDot ∨ (rooted = false ∧ st = []) ∨ st.head? = some dotDot then
      normLoop rooted (c :: st) cs
    else normLoop rooted st.tail cs

/-- `posixpath.normpath`. -/
def normpath (p : Text) : Text :=
  let slashes :=
    if p.startsWith ['/', '/'] ∧ ¬p.startsWith ['/', '/', '/'] then 2
    else if isAbsolute p then 1 else 0
  let path := List.replicate slashes '/' ++
    Json.join ['/'] (normLoop (isAbsolute p) [] (p.splitOn '/'))
  if path = [] then dot else path

example : normpath "d//e/./up/..".toList = "d/e".toList := by decide +kernel

/-! ## Members -/

inductive Kind where
  | file
  | directory
  | symlink (target : Text)
  | hardlink (target : Text)
  | device
  | fifo
  deriving DecidableEq

structure Member where
  name : Text
  kind : Kind
  deriving DecidableEq

/-- The target of a link, joined to the directory of its member, is inside as a text. -/
def targetInside (name target : Text) : Bool :=
  if isAbsolute target then false
  else
    let combined := normpath (posixJoin (dirname name) target)
    !(combined == dotDot || combined.startsWith (dotDot ++ ['/']))

/-- `_safe_member`. -/
def safeMember (m : Member) : Bool :=
  if m.name = [] ∨ isAbsolute m.name = true ∨ dotDot ∈ parts m.name then false
  else
    match m.kind with
    | .device => false
    | .fifo => false
    | .symlink target => targetInside m.name target
    | .hardlink target => targetInside m.name target
    | .file => true
    | .directory => true

/-! ## Resolving a path -/

/-- A link to the target lies at the path. -/
def LinkAt (members : List Member) (path : List Text) (target : Text) : Prop :=
  ∃ m ∈ members, m.kind = .symlink target ∧ parts m.name = path

/-- Where the resolution of a path has come: a directory of the tree, and the components that are
left. -/
inductive Place where
  | inside (dir rest : List Text)
  | outside

/-- One step of the resolution. -/
inductive Step (members : List Member) : Place → Place → Prop
  | blank {dir rest : List Text} {c : Text} (hc : IsBlank c) :
    Step members (.inside dir (c :: rest)) (.inside dir rest)
  | up {dir rest : List Text} (hdir : dir ≠ []) :
    Step members (.inside dir (dotDot :: rest)) (.inside dir.dropLast rest)
  | leave {rest : List Text} : Step members (.inside [] (dotDot :: rest)) .outside
  | enter {dir rest : List Text} {c : Text} (hc : ¬IsBlank c) (hup : c ≠ dotDot)
    (hlink : ∀ target, ¬LinkAt members (dir ++ [c]) target) :
    Step members (.inside dir (c :: rest)) (.inside (dir ++ [c]) rest)
  | follow {dir rest : List Text} {c target : Text} (hc : ¬IsBlank c) (hup : c ≠ dotDot)
    (hlink : LinkAt members (dir ++ [c]) target) (hrel : isAbsolute target = false) :
    Step members (.inside dir (c :: rest)) (.inside dir (target.splitOn '/' ++ rest))
  | root {dir rest : List Text} {c target : Text} (hc : ¬IsBlank c) (hup : c ≠ dotDot)
    (hlink : LinkAt members (dir ++ [c]) target) (habs : isAbsolute target = true) :
    Step members (.inside dir (c :: rest)) .outside

/-- The place at which the resolution of a path begins. -/
def start (path : Text) : Place := .inside [] (path.splitOn '/')

/-! ## Texts that climb -/

/-- The components do not climb above the root, taken as a text. -/
def Stays : List Text → List Text → Prop
  | _, [] => True
  | dir, c :: cs =>
    if IsBlank c then Stays dir cs
    else if c = dotDot then dir ≠ [] ∧ Stays dir.dropLast cs
    else Stays (dir ++ [c]) cs

/-- No link lies on the way before the last `..` of the components. -/
def Clear (members : List Member) : List Text → List Text → Prop
  | _, [] => True
  | dir, c :: cs => dotDot ∈ c :: cs →
    if IsBlank c then Clear members dir cs
    else if c = dotDot then Clear members dir.dropLast cs
    else (∀ target, ¬LinkAt members (dir ++ [c]) target) ∧ Clear members (dir ++ [c]) cs

/-- **Straight**: the links of the archive are symbolic, and their names end in a component. No
member lies below a link, so that each lies at its name, and no target has a `..` behind a link. -/
structure Straight (members : List Member) : Prop where
  soft : ∀ m ∈ members, ∀ target, m.kind ≠ .hardlink target
  named : ∀ m ∈ members, ∀ target, m.kind = .symlink target →
    ∃ c, (m.name.splitOn '/').getLast? = some c ∧ ¬IsBlank c
  below : ∀ m ∈ members, ∀ path target, LinkAt members path target →
    ¬path <+: (parts m.name).dropLast
  clear : ∀ m ∈ members, ∀ target, m.kind = .symlink target →
    Clear members (parts m.name).dropLast (target.splitOn '/')

theorem stays_of_not_mem {dir cs : List Text} (h : dotDot ∉ cs) : Stays dir cs := by
  induction cs generalizing dir with
  | nil => trivial
  | cons c cs ih =>
    rw [List.mem_cons, not_or] at h
    rw [Stays, if_neg (Ne.symm h.1)]
    split
    · exact ih h.2
    · exact ih h.2

theorem clear_of_not_mem {members : List Member} {dir cs : List Text} (h : dotDot ∉ cs) :
    Clear members dir cs := by
  cases cs with
  | nil => trivial
  | cons c cs => exact fun hm => absurd hm h

theorem Stays.append {dir as bs : List Text} (h : Stays dir as) (hbs : dotDot ∉ bs) :
    Stays dir (as ++ bs) := by
  induction as generalizing dir with
  | nil => exact stays_of_not_mem hbs
  | cons c cs ih =>
    rw [List.cons_append, Stays]
    rw [Stays] at h
    split
    · next hc =>
      rw [if_pos hc] at h
      exact ih h
    next hc =>
    rw [if_neg hc] at h
    split
    · next hup =>
      rw [if_pos hup] at h
      exact ⟨h.1, ih h.2⟩
    · next hup =>
      rw [if_neg hup] at h
      exact ih h

theorem Clear.append {members : List Member} {dir as bs : List Text} (h : Clear members dir as)
    (hbs : dotDot ∉ bs) : Clear members dir (as ++ bs) := by
  induction as generalizing dir with
  | nil => exact clear_of_not_mem hbs
  | cons c cs ih =>
    intro hm
    have hm' : dotDot ∈ c :: cs := by
      rcases List.mem_cons.mp hm with rfl | hm
      · exact List.mem_cons_self
      · exact List.mem_cons_of_mem _ ((List.mem_append.mp hm).resolve_right hbs)
    have h := h hm'
    split
    · next hc =>
      rw [if_pos hc] at h
      exact ih h
    next hc =>
    rw [if_neg hc] at h
    split
    · next hup =>
      rw [if_pos hup] at h
      exact ih h
    · next hup =>
      rw [if_neg hup] at h
      exact ⟨h.1, ih h.2⟩

/-! ## The check of a target -/

/-- A path that has climbed above the root stays there. -/
theorem head?_normLoop {st : List Text} (cs : List Text) (h : st.getLast? = some dotDot) :
    (normLoop false st cs).head? = some dotDot := by
  induction cs generalizing st with
  | nil => rwa [normLoop, List.head?_reverse]
  | cons c cs ih =>
    obtain ⟨d, ds, rfl⟩ := List.exists_cons_of_ne_nil
      (show st ≠ [] by rintro rfl; cases h)
    rw [normLoop]
    split
    · exact ih h
    split
    · exact ih (by rwa [List.getLast?_cons_cons])
    · next hpop =>
      refine ih ?_
      cases ds with
      | nil => exact absurd (.inr (.inr h)) hpop
      | cons d' ds => rwa [List.getLast?_cons_cons] at h

theorem stays_of_normLoop {st cs : List Text} (hst : dotDot ∉ st)
    (h : (normLoop false st cs).head? ≠ some dotDot) : Stays st.reverse cs := by
  induction cs generalizing st with
  | nil => trivial
  | cons c cs ih =>
    rw [normLoop] at h
    rw [Stays]
    split
    · next hc =>
      rw [if_pos hc] at h
      exact ih hst h
    next hc =>
    rw [if_neg hc] at h
    split
    · next hup =>
      subst hup
      cases st with
      | nil =>
        rw [if_pos (.inr (.inl ⟨rfl, rfl⟩))] at h
        exact absurd (head?_normLoop cs rfl) h
      | cons d ds =>
        have hd : d ≠ dotDot := fun hd => hst (hd ▸ List.mem_cons_self)
        rw [if_neg (by simp [hd])] at h
        refine ⟨by simp, ?_⟩
        rw [List.reverse_cons, List.dropLast_concat]
        exact ih (fun hm => hst (List.mem_cons_of_mem _ hm)) h
    · next hup =>
      rw [if_pos (.inl hup)] at h
      have := @ih (c :: st) (by simp [hst, Ne.symm hup]) h
      rwa [List.reverse_cons] at this

/-- Components that do not climb are pushed. -/
theorem normLoop_append {st as bs : List Text} (h : dotDot ∉ as) :
    normLoop false st (as ++ bs) =
      normLoop false ((as.filter fun c => ¬IsBlank c).reverse ++ st) bs := by
  induction as generalizing st with
  | nil => rfl
  | cons c cs ih =>
    rw [List.mem_cons, not_or] at h
    rw [List.cons_append, normLoop]
    by_cases hc : IsBlank c
    · rw [if_pos hc, ih h.2, List.filter_cons_of_neg (by simpa using hc)]
    · rw [if_neg hc, if_pos (.inl (Ne.symm h.1)), ih h.2,
        List.filter_cons_of_pos (by simpa using hc)]
      simp

theorem parts_append_slash (a b : Text) : parts (a ++ '/' :: b) = parts a ++ parts b := by
  unfold parts
  rw [List.splitOn_append_cons_self, List.filter_append]

theorem parts_stripSlashes (p : Text) : parts (stripSlashes p) = parts p := by
  induction p using List.reverseRecOn with
  | nil => rfl
  | append_singleton p c ih =>
    unfold stripSlashes at ih ⊢
    rw [List.reverse_append, List.reverse_singleton, List.singleton_append]
    by_cases hc : c = '/'
    · rw [List.dropWhile_cons_of_pos (by simp [hc]), ih, hc, parts_append_slash]
      exact (List.append_nil _).symm
    · rw [List.dropWhile_cons_of_neg (by simp [hc]), List.reverse_cons, List.reverse_reverse]

theorem getLast?_stripSlashes (p : Text) : (stripSlashes p).getLast? ≠ some '/' := by
  unfold stripSlashes
  rw [List.getLast?_reverse]
  intro h
  have := List.head?_dropWhile_not (fun c : Char => decide (c = '/')) p.reverse
  rw [h] at this
  simp at this

theorem isAbsolute_of_append {a b : Text} (ha : a ≠ []) (h : isAbsolute (a ++ b) = false) :
    isAbsolute a = false := by
  obtain ⟨c, cs, rfl⟩ := List.exists_cons_of_ne_nil ha
  exact h

/-- What `dirname` leaves of the name of a member. -/
structure IsDir (name dir : Text) : Prop where
  parts : parts dir = (parts name).dropLast
  slash : dir.getLast? ≠ some '/'
  relative : isAbsolute dir = false

theorem isDir_dirname {name c : Text} (h : isAbsolute name = false)
    (hlast : (name.splitOn '/').getLast? = some c) (hc : ¬IsBlank c) :
    IsDir name (dirname name) := by
  obtain ⟨head, base, hname, hbase, hhead, hslash⟩ : ∃ head base, name = head ++ base ∧
      '/' ∉ base ∧ (name.reverse.dropWhile (· ≠ '/')).reverse = head ∧
      ∀ d ∈ head.getLast?, d = '/' := by
    refine ⟨_, (name.reverse.takeWhile (· ≠ '/')).reverse, ?_, fun hm => ?_, rfl, ?_⟩
    · rw [← List.reverse_append, List.takeWhile_append_dropWhile, List.reverse_reverse]
    · have := List.mem_takeWhile_imp (List.mem_reverse.mp hm)
      simp at this
    · intro d hd
      rw [List.getLast?_reverse] at hd
      have := List.head?_dropWhile_not (fun c : Char => decide (c ≠ '/')) name.reverse
      rw [hd] at this
      simpa using this
  have hparts : ∀ u, parts (u ++ '/' :: base) = parts u ++ parts base := fun u =>
    parts_append_slash u base
  rcases List.eq_nil_or_concat head with rfl | ⟨u, d, rfl⟩
  · -- the name is one component
    rw [List.nil_append] at hname
    obtain rfl : base = c := by
      rw [hname, List.splitOn_eq_singleton hbase] at hlast
      exact Option.some.inj hlast
    have hone : parts base = [base] := by
      rw [parts, List.splitOn_eq_singleton hbase, List.filter_cons_of_pos (by simpa using hc)]
      rfl
    rw [dirname, hhead]
    exact ⟨by rw [hname, hone]; rfl, by simp, rfl⟩
  · rw [List.concat_eq_append] at hname hhead hslash
    obtain rfl : d = '/' := hslash d (by simp)
    rw [List.append_assoc, List.singleton_append] at hname
    obtain rfl : base = c := by
      rw [hname, List.splitOn_append_cons_self, List.splitOn_eq_singleton hbase,
        List.getLast?_concat] at hlast
      exact Option.some.inj hlast
    have hone : parts base = [base] := by
      rw [parts, List.splitOn_eq_singleton hbase, List.filter_cons_of_pos (by simpa using hc)]
      rfl
    have hall : (u ++ ['/']).all (· = '/') = false := by
      rw [Bool.eq_false_iff]
      intro hall
      have habs : isAbsolute name = true := by
        rw [hname]
        cases u with
        | nil => rfl
        | cons e u =>
          have : e = '/' := by simpa using List.all_eq_true.mp hall e List.mem_cons_self
          rw [this]
          rfl
      rw [h] at habs
      cases habs
    have hdir : dirname name = stripSlashes (u ++ ['/']) := by
      rw [dirname, hhead]
      exact if_neg (by rw [hall]; exact Bool.false_ne_true)
    have hsplit : ∃ t, u ++ ['/'] = stripSlashes (u ++ ['/']) ++ t := by
      refine ⟨((u ++ ['/']).reverse.takeWhile (· = '/')).reverse, ?_⟩
      unfold stripSlashes
      rw [← List.reverse_append, List.takeWhile_append_dropWhile, List.reverse_reverse]
    rw [hdir]
    refine ⟨?_, getLast?_stripSlashes _, ?_⟩
    · rw [parts_stripSlashes, parts_append_slash, hname, hparts, hone, List.dropLast_concat]
      exact List.append_nil _
    · obtain ⟨t, ht⟩ := hsplit
      by_cases hnil : stripSlashes (u ++ ['/']) = []
      · rw [hnil]
        rfl
      · refine @isAbsolute_of_append _ (t ++ base) hnil ?_
        rw [← List.append_assoc, ← ht, List.append_assoc, List.singleton_append, ← hname]
        exact h

/-- A path with a climbing normal form begins with `..`. -/
theorem normpath_dotDot {p : Text} (hp : isAbsolute p = false)
    (h : (normLoop false [] (p.splitOn '/')).head? = some dotDot) :
    normpath p = dotDot ∨ (normpath p).startsWith (dotDot ++ ['/']) = true := by
  have hslashes : ¬p.startsWith ['/', '/'] = true := by
    intro hs
    have hpre : ['/'] <+: p :=
      (List.prefix_append ['/'] ['/']).trans (List.isPrefixOf_iff_prefix.mp hs)
    have habs : isAbsolute p = true := List.isPrefixOf_iff_prefix.mpr hpre
    rw [hp] at habs
    cases habs
  obtain ⟨cs, hcs⟩ : ∃ cs, normLoop false [] (p.splitOn '/') = dotDot :: cs := by
    cases hn : normLoop false [] (p.splitOn '/') with
    | nil =>
      rw [hn] at h
      cases h
    | cons c cs =>
      rw [hn] at h
      exact ⟨cs, by rw [Option.some.inj h]⟩
  have hpath : normpath p = Json.join ['/'] (dotDot :: cs) := by
    have hzero : (if p.startsWith ['/', '/'] = true ∧ ¬p.startsWith ['/', '/', '/'] = true then 2
        else if isAbsolute p = true then 1 else 0) = 0 := by
      rw [if_neg fun hs => hslashes hs.1, hp]
      rfl
    have hne : Json.join ['/'] (dotDot :: cs) ≠ [] := by
      cases cs <;> simp [Json.join, dotDot]
    unfold normpath
    dsimp only
    rw [hzero, hp, hcs, List.replicate_zero, List.nil_append, if_neg hne]
  rw [hpath]
  cases cs with
  | nil => exact .inl rfl
  | cons c cs =>
    refine .inr (List.isPrefixOf_iff_prefix.mpr ?_)
    exact ⟨_, by rw [Json.join, List.intersperse_cons_cons, List.flatten_cons, List.flatten_cons,
      List.append_assoc]⟩

/-- **A target that is accepted** does not climb above the root as a text. -/
theorem stays_of_safeMember {m : Member} {target c : Text} (hsafe : safeMember m = true)
    (hkind : m.kind = .symlink target) (hlast : (m.name.splitOn '/').getLast? = some c)
    (hc : ¬IsBlank c) :
    isAbsolute target = false ∧ Stays (parts m.name).dropLast (target.splitOn '/') := by
  unfold safeMember at hsafe
  split at hsafe
  · cases hsafe
  next hname =>
  rw [not_or, not_or, Bool.not_eq_true] at hname
  obtain ⟨-, hrel, hup⟩ := hname
  rw [hkind] at hsafe
  dsimp only at hsafe
  unfold targetInside at hsafe
  split at hsafe
  · cases hsafe
  next htarget =>
  rw [Bool.not_eq_true] at htarget
  obtain ⟨hparts, hslash, hdir⟩ := isDir_dirname hrel hlast hc
  generalize dirname m.name = dir at hparts hslash hdir hsafe
  have hblank : ¬IsBlank dotDot := by decide
  have hnot : dotDot ∉ dir.splitOn '/' := by
    intro hm
    have hmem : dotDot ∈ parts dir := List.mem_filter.mpr ⟨hm, by simpa using hblank⟩
    rw [hparts] at hmem
    exact hup (List.mem_of_mem_dropLast hmem)
  refine ⟨htarget, ?_⟩
  -- the components of the joined path are those of the directory and of the target
  have hjoin : isAbsolute (posixJoin dir target) = false ∧
      normLoop false [] ((posixJoin dir target).splitOn '/') =
        normLoop false (parts dir).reverse (target.splitOn '/') := by
    unfold posixJoin
    rw [htarget, if_neg Bool.false_ne_true]
    split
    · next hd =>
      obtain rfl := hd.resolve_right hslash
      exact ⟨htarget, rfl⟩
    · next hd =>
      rw [not_or] at hd
      obtain ⟨d, ds, rfl⟩ := List.exists_cons_of_ne_nil hd.1
      refine ⟨hdir, ?_⟩
      rw [List.splitOn_append_cons_self, normLoop_append hnot, List.append_nil]
      rfl
  have hhead : (normLoop false (parts dir).reverse (target.splitOn '/')).head? ≠ some dotDot := by
    intro hhead
    rw [← hjoin.2] at hhead
    rcases normpath_dotDot hjoin.1 hhead with h | h
    · simp [h] at hsafe
    · simp [h] at hsafe
  have hstays := stays_of_normLoop (fun hm => ?_) hhead
  · rwa [List.reverse_reverse, hparts] at hstays
  · exact hnot (List.mem_of_mem_filter (List.mem_reverse.mp hm))

/-! ## Resolution stays inside -/

/-- What holds of every place that a resolution comes to. -/
def Confined (members : List Member) : Place → Prop
  | .inside dir rest => Stays dir rest ∧ Clear members dir rest
  | .outside => False

variable {members : List Member}

theorem confined_start {m : Member} (h : safeMember m = true) :
    Confined members (start m.name) := by
  have hup : dotDot ∉ m.name.splitOn '/' := by
    intro hm
    have hblank : ¬IsBlank dotDot := by decide
    have hmem : dotDot ∈ parts m.name := List.mem_filter.mpr ⟨hm, by simpa using hblank⟩
    unfold safeMember at h
    rw [if_pos (.inr (.inr hmem))] at h
    cases h
  exact ⟨stays_of_not_mem hup, clear_of_not_mem hup⟩

/-- **One step** keeps the resolution inside. -/
theorem Confined.step (hsafe : ∀ m ∈ members, safeMember m = true) (hstraight : Straight members)
    {p q : Place} (h : Confined members p) (hstep : Step members p q) : Confined members q := by
  have hno : ∀ {dir : List Text} {c : Text} {rest : List Text}, Clear members dir (c :: rest) →
      ¬IsBlank c → c ≠ dotDot → dotDot ∈ c :: rest →
      (∀ target, ¬LinkAt members (dir ++ [c]) target) ∧ Clear members (dir ++ [c]) rest := by
    intro dir c rest hclear hc hup hm
    have := hclear hm
    rwa [if_neg hc, if_neg hup] at this
  cases hstep with
  | @blank dir rest c hc =>
    obtain ⟨hstays, hclear⟩ := h
    rw [Stays, if_pos hc] at hstays
    refine ⟨hstays, ?_⟩
    by_cases hm : dotDot ∈ rest
    · have := hclear (List.mem_cons_of_mem _ hm)
      rwa [if_pos hc] at this
    · exact clear_of_not_mem hm
  | @up dir rest hdir =>
    obtain ⟨hstays, hclear⟩ := h
    have hblank : ¬IsBlank dotDot := by decide
    rw [Stays, if_neg hblank, if_pos rfl] at hstays
    have := hclear List.mem_cons_self
    rw [if_neg hblank, if_pos rfl] at this
    exact ⟨hstays.2, this⟩
  | leave =>
    have hblank : ¬IsBlank dotDot := by decide
    have := h.1
    rw [Stays, if_neg hblank, if_pos rfl] at this
    exact this.1 rfl
  | @enter dir rest c hc hup hlink =>
    obtain ⟨hstays, hclear⟩ := h
    rw [Stays, if_neg hc, if_neg hup] at hstays
    refine ⟨hstays, ?_⟩
    by_cases hm : dotDot ∈ rest
    · exact (hno hclear hc hup (List.mem_cons_of_mem _ hm)).2
    · exact clear_of_not_mem hm
  | @follow dir rest c target hc hup hlink hrel =>
    obtain ⟨hstays, hclear⟩ := h
    -- behind a link there is no `..`
    have hrest : dotDot ∉ rest := fun hm =>
      (hno hclear hc hup (List.mem_cons_of_mem _ hm)).1 target hlink
    obtain ⟨m, hm, hkind, hparts⟩ := hlink
    obtain ⟨last, hlast, hlast'⟩ := hstraight.named m hm target hkind
    have htarget := (stays_of_safeMember (hsafe m hm) hkind hlast hlast').2
    have hclear' := hstraight.clear m hm target hkind
    rw [hparts, List.dropLast_concat] at htarget hclear'
    exact ⟨htarget.append hrest, hclear'.append hrest⟩
  | @root dir rest c target hc hup hlink habs =>
    obtain ⟨m, hm, hkind, -⟩ := hlink
    obtain ⟨last, hlast, hlast'⟩ := hstraight.named m hm target hkind
    rw [(stays_of_safeMember (hsafe m hm) hkind hlast hlast').1] at habs
    cases habs

/-- **Archive members are confined.** Where every member is accepted and no `..` of a link stands
behind another link, resolving the name of a member never leads outside. -/
theorem inside_of_steps (members : List Member) (hsafe : ∀ m ∈ members, safeMember m = true)
    (hstraight : Straight members) (m : Member) (hm : m ∈ members) (p : Place)
    (hp : Relation.ReflTransGen (Step members) (start m.name) p) : p ≠ .outside := by
  have hconfined : Confined members p := by
    induction hp with
    | refl => exact confined_start (hsafe m hm)
    | tail _ hstep ih => exact ih.step hsafe hstraight hstep
  rintro rfl
  exact hconfined

/-- A file, and a link to it from a directory. -/
def linkedFile : List Member :=
  [⟨"x".toList, .file⟩, ⟨"d".toList, .directory⟩, ⟨"d/l".toList, .symlink "../x".toList⟩]

theorem linkAt_linkedFile {path : List Text} {target : Text}
    (h : LinkAt linkedFile path target) : path = ["d".toList, "l".toList] := by
  obtain ⟨m, hm, hkind, rfl⟩ := h
  simp only [linkedFile, List.mem_cons, List.not_mem_nil, or_false] at hm
  rcases hm with rfl | rfl | rfl
  · cases hkind
  · cases hkind
  · decide +kernel

theorem straight_linkedFile : Straight linkedFile := by
  refine ⟨?_, ?_, ?_, ?_⟩
  · intro m hm target hkind
    simp only [linkedFile, List.mem_cons, List.not_mem_nil, or_false] at hm
    rcases hm with rfl | rfl | rfl <;> cases hkind
  · intro m hm target hkind
    simp only [linkedFile, List.mem_cons, List.not_mem_nil, or_false] at hm
    rcases hm with rfl | rfl | rfl
    · cases hkind
    · cases hkind
    · exact ⟨"l".toList, by decide +kernel, by decide +kernel⟩
  · intro m hm path target hlink hpre
    obtain rfl := linkAt_linkedFile hlink
    simp only [linkedFile, List.mem_cons, List.not_mem_nil, or_false] at hm
    rcases hm with rfl | rfl | rfl
    · exact absurd hpre.length_le (by decide +kernel)
    · exact absurd hpre.length_le (by decide +kernel)
    · exact absurd hpre.length_le (by decide +kernel)
  · intro m hm target hkind
    simp only [linkedFile, List.mem_cons, List.not_mem_nil, or_false] at hm
    rcases hm with rfl | rfl | rfl
    · cases hkind
    · cases hkind
    · obtain rfl := Kind.symlink.inj hkind
      exact fun _ => clear_of_not_mem (by decide +kernel)

/-- The link leads to the name of the file. -/
theorem steps_linkedFile : Relation.ReflTransGen (Step linkedFile) (start "d/l".toList)
    (.inside [] ["x".toList]) := by
  have hstart : start "d/l".toList = .inside [] ["d".toList, "l".toList] := by
    have : "d/l".toList.splitOn '/' = ["d".toList, "l".toList] := by decide +kernel
    rw [start, this]
  have hsplit : "../x".toList.splitOn '/' = [dotDot, "x".toList] := by decide +kernel
  have hlink : LinkAt linkedFile ["d".toList, "l".toList] "../x".toList :=
    ⟨⟨"d/l".toList, .symlink "../x".toList⟩, by simp [linkedFile], rfl, by decide +kernel⟩
  have hnone : ∀ target, ¬LinkAt linkedFile ["d".toList] target := fun target h =>
    absurd (linkAt_linkedFile h) (by decide)
  have hfollow := @Step.follow _ ["d".toList] [] "l".toList _ (by decide) (by decide) hlink
    (by decide)
  rw [hsplit] at hfollow
  rw [hstart]
  exact .head (.enter (by decide) (by decide) hnone) (.head hfollow (.single (.up (by decide))))

theorem inside_of_steps_link : Place.inside [] ["x".toList] ≠ .outside :=
  inside_of_steps linkedFile (by decide +kernel) straight_linkedFile
    ⟨"d/l".toList, .symlink "../x".toList⟩ (by simp [linkedFile]) _ steps_linkedFile

/-- **A chain of links** that are accepted one by one leads outside: `q` climbs from where `up` has
led. -/
theorem chain_leads_outside : ¬∀ members : List Member, (∀ m ∈ members, safeMember m = true) →
    ∀ m ∈ members, ∀ p, Relation.ReflTransGen (Step members) (start m.name) p → p ≠ .outside := by
  intro h
  have hlink : LinkAt [⟨"d/e/up".toList, .symlink "../..".toList⟩,
      ⟨"q".toList, .symlink "d/e/up/..".toList⟩] ["d".toList, "e".toList, "up".toList]
      "../..".toList := ⟨_, List.mem_cons_self, rfl, by decide +kernel⟩
  have hq : LinkAt [⟨"d/e/up".toList, .symlink "../..".toList⟩,
      ⟨"q".toList, .symlink "d/e/up/..".toList⟩] ["q".toList] "d/e/up/..".toList :=
    ⟨_, List.mem_cons_of_mem _ List.mem_cons_self, rfl, by decide +kernel⟩
  have hnone : ∀ path, path ≠ ["d".toList, "e".toList, "up".toList] → path ≠ ["q".toList] →
      ∀ target, ¬LinkAt [⟨"d/e/up".toList, .symlink "../..".toList⟩,
        ⟨"q".toList, .symlink "d/e/up/..".toList⟩] path target := by
    rintro path h₁ h₂ target ⟨m, hm, -, rfl⟩
    simp only [List.mem_cons, List.not_mem_nil, or_false] at hm
    rcases hm with rfl | rfl
    · exact h₁ (by decide +kernel)
    · exact h₂ (by decide +kernel)
  refine h [⟨"d/e/up".toList, .symlink "../..".toList⟩, ⟨"q".toList, .symlink "d/e/up/..".toList⟩]
    (by decide +kernel) ⟨"q".toList, .symlink "d/e/up/..".toList⟩ (by simp) .outside ?_ rfl
  have hstart : start "q".toList = .inside [] ["q".toList] := by
    have : "q".toList.splitOn '/' = ["q".toList] := by decide +kernel
    rw [start, this]
  have hsplit : "d/e/up/..".toList.splitOn '/' =
      ["d".toList, "e".toList, "up".toList, dotDot] := by decide +kernel
  have hsplit' : "../..".toList.splitOn '/' = [dotDot, dotDot] := by decide +kernel
  have hfollow := @Step.follow _ [] [] "q".toList _ (by decide) (by decide) hq (by decide)
  have hup := @Step.follow _ ["d".toList, "e".toList] [dotDot] "up".toList _ (by decide)
    (by decide) hlink (by decide)
  rw [hsplit] at hfollow
  rw [hsplit'] at hup
  rw [hstart]
  refine .head hfollow (.head (.enter (by decide) (by decide) (hnone _ (by decide) (by decide)))
    (.head (.enter (by decide) (by decide) (hnone _ (by decide) (by decide))) (.head hup ?_)))
  exact .head (.up (by decide)) (.head (.up (by decide)) (.single .leave))

end Snapshot

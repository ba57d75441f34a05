import FlexStore.Go.Reader

/-!
# Paths

The lexical operations of `path/filepath` on Unix. A path is rooted or not and has
components; cleaning it drops empty components and `.`, and lets `..` remove the component
before it. What is left is in normal form: every `..` stands in front of all other components,
and a rooted path has none. Cleaning a path in normal form changes nothing, so the components
of a cleaned path can be read off its text.

Joining a path with proper components, none of them empty, `.`, `..` or with a separator in
it, adds them behind the components of the path (`resolve_join`).
-/

namespace Go.Path

def separator : UInt8 := 0x2F

def dot : Bytes := [0x2E]

def dotDot : Bytes := [0x2E, 0x2E]

/-- `strings.Join` with the separator. -/
def concat (components : List Bytes) : Bytes := [separator].intercalate components

def push (rooted : Bool) (out : List Bytes) (component : Bytes) : List Bytes :=
  if component = [] ∨ component = dot then out
  else if component = dotDot then
    if out = [] then if rooted then [] else [dotDot]
    else if out.getLast? = some dotDot then out ++ [dotDot]
    else out.dropLast
  else out ++ [component]

/-- Whether a path is rooted, and the components that are left of it. -/
def resolve (path : Bytes) : Bool × List Bytes :=
  let rooted : Bool := path.head? = some separator
  (rooted, (path.splitOn separator).foldl (push rooted) [])

def render (rooted : Bool) (components : List Bytes) : Bytes :=
  if rooted then separator :: concat components
  else if components = [] then dot
  else concat components

/-- `filepath.Clean`. -/
def clean (path : Bytes) : Bytes := render (resolve path).1 (resolve path).2

/-- `filepath.Join`. -/
def join (elements : List Bytes) : Bytes :=
  match elements.dropWhile (· = []) with
  | [] => []
  | element :: rest => clean (concat (element :: rest))

/-- A component that names something below. -/
structure Proper (component : Bytes) : Prop where
  nonempty : component ≠ []
  not_dot : component ≠ dot
  not_dotDot : component ≠ dotDot
  no_separator : separator ∉ component

/-- Every `..` is in front, and a rooted path has none. -/
structure Normal (rooted : Bool) (components : List Bytes) (ups : Nat)
    (below : List Bytes) : Prop where
  split : components = List.replicate ups dotDot ++ below
  proper : ∀ c ∈ below, Proper c
  top : rooted = true → ups = 0

section Push

variable {rooted : Bool} {out below : List Bytes} {component : Bytes} {ups : Nat}

theorem push_proper (proper : Proper component) :
    push rooted out component = out ++ [component] := by
  rw [push, if_neg, if_neg proper.not_dotDot]
  rintro (empty | isDot)
  · exact proper.nonempty empty
  · exact proper.not_dot isDot

theorem foldl_push_proper {elements : List Bytes} (proper : ∀ c ∈ elements, Proper c) :
    elements.foldl (push rooted) out = out ++ elements := by
  induction elements generalizing out with
  | nil => rw [List.foldl_nil, List.append_nil]
  | cons c elements ih =>
    obtain ⟨first, others⟩ := List.forall_mem_cons.mp proper
    rw [List.foldl_cons, push_proper first, ih others, List.append_assoc, List.singleton_append]

theorem push_dotDot_replicate (ups : Nat) :
    push false (List.replicate ups dotDot) dotDot = List.replicate (ups + 1) dotDot := by
  rw [push, if_neg (by decide), if_pos rfl]
  cases ups with
  | zero => rfl
  | succ ups =>
    have last : (List.replicate (ups + 1) dotDot).getLast? = some dotDot := by
      rw [List.getLast?_replicate, if_neg (Nat.succ_ne_zero ups)]
    rw [if_neg (by simp), if_pos last, ← List.replicate_succ']

theorem foldl_push_replicate (ups : Nat) :
    (List.replicate ups dotDot).foldl (push false) [] = List.replicate ups dotDot := by
  induction ups with
  | zero => rfl
  | succ ups ih =>
    rw [List.replicate_succ', List.foldl_append, ih, List.foldl_cons, List.foldl_nil,
      push_dotDot_replicate, List.replicate_succ']

/-- Components in normal form are left as they are. -/
theorem Normal.foldl (normal : Normal rooted out ups below) : out.foldl (push rooted) [] = out := by
  rw [normal.split, List.foldl_append, foldl_push_proper normal.proper]
  cases rooted with
  | true =>
    rw [normal.top rfl]
    rfl
  | false => rw [foldl_push_replicate]

/-- Looking at one more component keeps the normal form. -/
theorem Normal.push (normal : Normal rooted out ups below) (single : separator ∉ component) :
    ∃ ups' below', Normal rooted (push rooted out component) ups' below' := by
  by_cases skipped : component = [] ∨ component = dot
  · rw [Path.push, if_pos skipped]
    exact ⟨ups, below, normal⟩
  · obtain ⟨nonempty, not_dot⟩ := not_or.mp skipped
    by_cases up : component = dotDot
    · rw [Path.push, if_neg skipped, if_pos up]
      obtain rfl | ⟨init, last, rfl⟩ := List.eq_nil_or_concat' below
      · -- Only `..` is there: the root absorbs another one.
        have split := normal.split
        rw [List.append_nil] at split
        cases rooted with
        | true =>
          have none_ := normal.top rfl
          rw [split, none_]
          exact ⟨0, [], rfl, fun c listed => absurd listed List.not_mem_nil, fun _ => rfl⟩
        | false =>
          have more := push_dotDot_replicate ups
          rw [Path.push, if_neg (by decide), if_pos rfl] at more
          rw [split, more]
          exact ⟨ups + 1, [], (List.append_nil _).symm,
            fun c listed => absurd listed List.not_mem_nil, fun absurd_ => by cases absurd_⟩
      · -- The last proper component is removed.
        have split := normal.split
        rw [← List.append_assoc] at split
        have proper := normal.proper last (List.mem_append_right _ (List.mem_singleton.mpr rfl))
        have kept : out.getLast? ≠ some dotDot := by
          rw [split, List.getLast?_concat]
          exact fun same => proper.not_dotDot (Option.some.inj same)
        have some_ : out ≠ [] := by
          rw [split]
          exact List.append_ne_nil_of_right_ne_nil _ (List.cons_ne_nil _ _)
        rw [if_neg some_, if_neg kept, split, List.dropLast_concat]
        exact ⟨ups, init, rfl, fun c listed => normal.proper c (List.mem_append_left _ listed),
          normal.top⟩
    · have proper : Proper component := ⟨nonempty, not_dot, up, single⟩
      rw [push_proper proper, normal.split, List.append_assoc]
      refine ⟨ups, below ++ [component], rfl, ?_, normal.top⟩
      intro c listed
      obtain old | new := List.mem_append.mp listed
      · exact normal.proper c old
      · rwa [List.mem_singleton.mp new]

theorem foldl_push_normal {components : List Bytes} (normal : Normal rooted out ups below)
    (single : ∀ c ∈ components, separator ∉ c) :
    ∃ ups' below', Normal rooted (components.foldl (Path.push rooted) out) ups' below' := by
  induction components generalizing out ups below with
  | nil => exact ⟨ups, below, normal⟩
  | cons c components ih =>
    obtain ⟨first, others⟩ := List.forall_mem_cons.mp single
    obtain ⟨ups', below', next⟩ := normal.push first
    exact ih next others

end Push

section Resolve

variable {rooted : Bool} {components below elements : List Bytes} {ups : Nat} {path : Bytes}

theorem splitOn_no_separator (path : Bytes) : ∀ c ∈ path.splitOn separator, separator ∉ c := by
  induction path with
  | nil => simp
  | cons b path ih =>
    rw [List.splitOn_cons_eq_if_modifyHead]
    by_cases at_ : b = separator
    · rw [if_pos (by simpa using at_)]
      exact List.forall_mem_cons.mpr ⟨List.not_mem_nil, ih⟩
    · rw [if_neg (by simpa using at_)]
      obtain ⟨c, rest, split⟩ := List.exists_cons_of_ne_nil (List.splitOn_ne_nil separator path)
      rw [split] at ih ⊢
      obtain ⟨first, others⟩ := List.forall_mem_cons.mp ih
      refine List.forall_mem_cons.mpr ⟨?_, others⟩
      intro listed
      obtain same | later := List.mem_cons.mp listed
      · exact at_ same.symm
      · exact first later

theorem resolve_normal (path : Bytes) :
    ∃ ups below, Normal (resolve path).1 (resolve path).2 ups below := by
  have start : Normal (resolve path).1 [] 0 [] :=
    ⟨rfl, fun c listed => absurd listed List.not_mem_nil, fun _ => rfl⟩
  exact foldl_push_normal start (splitOn_no_separator path)

theorem Normal.single (normal : Normal rooted components ups below) :
    ∀ c ∈ components, separator ∉ c ∧ c ≠ [] := by
  intro c listed
  rw [normal.split, List.mem_append, List.mem_replicate] at listed
  obtain ⟨_, rfl⟩ | inside := listed
  · decide
  · exact ⟨(normal.proper c inside).no_separator, (normal.proper c inside).nonempty⟩

/-- The components that a concatenation is split into are the ones it is made of. -/
theorem foldl_splitOn_concat {out : List Bytes} (single : ∀ c ∈ components, separator ∉ c) :
    ((concat components).splitOn separator).foldl (push rooted) out =
      components.foldl (push rooted) out := by
  cases components with
  | nil => rfl
  | cons c components =>
    rw [concat, List.splitOn_intercalate separator single (List.cons_ne_nil _ _)]

/-- The components of a text in normal form. -/
theorem Normal.resolve_render (normal : Normal rooted components ups below) :
    resolve (render rooted components) = (rooted, components) := by
  have single (c : Bytes) (listed : c ∈ components) : separator ∉ c := (normal.single c listed).1
  cases rooted with
  | true =>
    have split : (separator :: concat components).splitOn separator =
        [] :: (concat components).splitOn separator := List.splitOn_append_cons_self [] _
    have skip : Path.push true [] [] = [] := rfl
    show (true, ((separator :: concat components).splitOn separator).foldl
      (Path.push true) []) = _
    rw [split, List.foldl_cons, skip, foldl_splitOn_concat single, normal.foldl]
  | false =>
    cases components with
    | nil => rfl
    | cons c rest =>
      have nonempty := (normal.single c List.mem_cons_self).2
      obtain ⟨b, more, rfl⟩ := List.exists_cons_of_ne_nil nonempty
      have first : b ≠ separator :=
        fun same => single _ List.mem_cons_self (same ▸ List.mem_cons_self)
      have head : (concat ((b :: more) :: rest)).head? = some b := by
        cases rest with
        | nil => rfl
        | cons c rest => rw [concat, List.intercalate_cons_cons]; rfl
      have unrooted :
          decide ((concat ((b :: more) :: rest)).head? = some separator) = false := by
        rw [head, decide_eq_false_iff_not]
        exact fun same => first (Option.some.inj same)
      rw [render, if_neg (by decide), if_neg (List.cons_ne_nil _ _), resolve, unrooted,
        foldl_splitOn_concat single, normal.foldl]

/-- The components of a cleaned path. -/
theorem resolve_clean (path : Bytes) : resolve (clean path) = resolve path := by
  obtain ⟨ups, below, normal⟩ := resolve_normal path
  rw [clean, normal.resolve_render]

/-- Proper components are added behind those of the path. -/
theorem resolve_concat (some_ : path ≠ []) (proper : ∀ c ∈ elements, Proper c) :
    resolve (path ++ separator :: concat elements) =
      ((resolve path).1, (resolve path).2 ++ elements) := by
  have head : (path ++ separator :: concat elements).head? = path.head? := by
    obtain ⟨b, more, rfl⟩ := List.exists_cons_of_ne_nil some_
    rfl
  rw [resolve, head, List.splitOn_append_cons_self, List.foldl_append,
    foldl_splitOn_concat fun c listed => (proper c listed).no_separator, foldl_push_proper proper]
  rfl

theorem render_ne_nil (rooted : Bool) (single : ∀ c ∈ components, c ≠ []) :
    render rooted components ≠ [] := by
  rw [render]
  split_ifs with root none_
  · exact List.cons_ne_nil _ _
  · decide
  · obtain ⟨c, rest, rfl⟩ := List.exists_cons_of_ne_nil none_
    have first := single c List.mem_cons_self
    cases rest with
    | nil => rwa [concat, List.intercalate_singleton]
    | cons c' rest =>
      rw [concat, List.intercalate_cons_cons, List.append_assoc]
      exact List.append_ne_nil_of_left_ne_nil first _

theorem clean_ne_nil (path : Bytes) : clean path ≠ [] := by
  obtain ⟨ups, below, normal⟩ := resolve_normal path
  exact render_ne_nil _ fun c listed => (normal.single c listed).2

/-- Joining a path and proper components, some of them already joined. -/
theorem resolve_join (some_ : path ≠ []) (proper : ∀ c ∈ elements, Proper c) :
    resolve (join [path, concat elements]) =
      ((resolve path).1, (resolve path).2 ++ elements) := by
  have two : concat [path, concat elements] = path ++ separator :: concat elements := by
    rw [concat, List.intercalate_cons_cons, List.intercalate_singleton, List.append_assoc,
      List.singleton_append]
  rw [join, List.dropWhile_cons_of_neg (by simpa using some_)]
  show resolve (clean (concat [path, concat elements])) = _
  rw [resolve_clean, two, resolve_concat some_ proper]

/-- Proper components are joined as they are. -/
theorem join_proper (nonempty : elements ≠ []) (proper : ∀ c ∈ elements, Proper c) :
    join elements = concat elements := by
  obtain ⟨c, rest, rfl⟩ := List.exists_cons_of_ne_nil nonempty
  have first := (proper c List.mem_cons_self).nonempty
  have normal : Normal false (c :: rest) 0 (c :: rest) :=
    ⟨rfl, proper, fun absurd_ => by cases absurd_⟩
  have rendered : render false (c :: rest) = concat (c :: rest) := rfl
  rw [join, List.dropWhile_cons_of_neg (by simpa using first)]
  show clean (concat (c :: rest)) = _
  rw [clean, ← rendered, normal.resolve_render]

end Resolve

end Go.Path

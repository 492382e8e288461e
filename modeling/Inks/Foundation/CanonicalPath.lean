import Inks.Foundation.Bytes
import Inks.Foundation.PathNormalize
import Inks.Library.Directory
import Inks.Library.Split
import Mathlib.Data.List.Induction

/-
  The normalized path is a canonical form: it leads where
  the path leads, from every directory, and two paths that
  lead to the same places have the same one.

  Key definitions include:
    * `PathNormalize.walk`
    * `PathNormalize.IsName`
    * `NormalPath`
    * `NormalPath.ofPath`, `NormalPath.render`

  Key theorems include:
    * `NormalPath.render_ofPath`
    * `NormalPath.walk_render`
    * `NormalPath.eq_of_lead`
    * `PathNormalize.path_normalize_canonical`
-/

------------------------------------------------------------
-- What a Path Means
------------------------------------------------------------

namespace Inks

namespace PathNormalize

variable {T : Type*} [DecidableEq T]

/- Empty segments and `.` stay, `..` goes to the parent. -/
def move
    (dot : T)
    (segment : List T) :
    Option (Directory.Move (List T)) :=
  if segment = [] ∨ segment = [dot] then
    none
  else if segment = [dot, dot] then
    some .up
  else
    some (.down segment)

def moves
    (dot sep : T)
    (path : List T) : List (Directory.Move (List T)) :=
  (path.splitOn sep).filterMap (move dot)

/- The directory that a path leads to from a directory. -/
def walk
    (dot sep : T)
    (d : List (List T))
    (path : List T) : List (List T) :=
  Directory.walk
    (if path.head? = some sep then [] else d)
    (moves dot sep path)

/- The segments of a path, after the root if it has one. -/
def segments
    (sep : T)
    (path : List T) : List (List T) :=
  let body :=
    if path.head? = some sep then path.tail else path
  if body = [] then [] else body.splitOn sep

/- The name of a directory. -/
def IsName
    (dot sep : T)
    (name : List T) : Prop :=
  name ≠ [] ∧ sep ∉ name ∧ name ≠ [dot] ∧
    name ≠ [dot, dot]

theorem moves_eq
    (dot sep : T)
    (path : List T) :
    moves dot sep path =
      (Split.tokens sep path).filterMap (move dot) := by
  rw [moves, Split.tokens, List.filterMap_filter]
  congr 1
  funext segment
  cases segment <;> simp [move]

/- Only a name is walked down to. -/
theorem move_eq_down
    {dot : T}
    {token name : List T}
    (hMove : move dot token = some (.down name)) :
    name = token ∧ name ≠ [dot] ∧ name ≠ [dot, dot] := by
  unfold move at hMove
  by_cases hStay : token = [] ∨ token = [dot]
  · rw [if_pos hStay] at hMove
    cases hMove
  · rw [if_neg hStay] at hMove
    by_cases hUp : token = [dot, dot]
    · rw [if_pos hUp] at hMove
      cases hMove
    · rw [if_neg hUp] at hMove
      cases hMove
      rw [not_or] at hStay
      exact ⟨rfl, hStay.2, hUp⟩

theorem isName_of_mem_moves
    {dot sep : T}
    {path name : List T}
    (hMem : Directory.Move.down name ∈ moves dot sep path) :
    IsName dot sep name := by
  rw [moves_eq, List.mem_filterMap] at hMem
  rcases hMem with ⟨token, hToken, hMove⟩
  rcases Split.mem_tokens hToken with ⟨hNonempty, hSep⟩
  rcases move_eq_down hMove with ⟨rfl, hDot, hUp⟩
  exact ⟨hNonempty, hSep, hDot, hUp⟩

/- The scan pushes the tokens of the path. -/
theorem scan_eq
    (dot sep : T)
    (isAbsolute : Bool)
    (path : List T)
    (segments : List (List T)) :
    scan dot sep isAbsolute path segments =
      (Split.tokens sep path).foldl
        (pushToken dot isAbsolute) segments := by
  induction hLength : path.length using
    Nat.strongRecOn generalizing path segments with
  | ind n ih =>
      rw [scan]
      by_cases hEnd : path.dropWhile (· == sep) = []
      · rw [if_pos hEnd, ← Split.tokens_skip, hEnd]
        simp
      · have hShorter :=
          length_afterToken_lt hEnd
        rw [if_neg hEnd]
        rw [hLength] at hShorter
        rw [ih _ hShorter _ _ rfl,
          ← Split.tokens_skip path]
        have hHead :=
          List.head?_dropWhile_not (· == sep) path
        cases hPos : path.dropWhile (· == sep) with
        | nil => exact absurd hPos hEnd
        | cons c rest =>
            rw [hPos] at hHead
            have hToken : c ≠ sep := by
              simpa using hHead
            rw [Split.tokens_cons hToken, List.foldl_cons]

end PathNormalize

end Inks

------------------------------------------------------------
-- Normal Paths
------------------------------------------------------------

namespace Inks

/-
  A path in normal form: moves up, but none from the root,
  and then names.
-/
@[ext] structure NormalPath
    {T : Type*}
    (dot sep : T) where
  isAbsolute : Bool
  route : Directory.Route (List T)
  names : ∀ name ∈ route.names,
    PathNormalize.IsName dot sep name
  root : isAbsolute = true → route.ups = 0

namespace NormalPath

variable {T : Type*} [DecidableEq T] {dot sep : T}

/- The directory that it leads to from a directory. -/
def lead
    (n : NormalPath dot sep)
    (d : List (List T)) : List (List T) :=
  if n.isAbsolute then n.route.names else n.route.act d

def segments
    (n : NormalPath dot sep) : List (List T) :=
  List.replicate n.route.ups [dot, dot] ++ n.route.names

/- The normal path as a string. -/
def render
    (n : NormalPath dot sep) : List T :=
  (if n.isAbsolute then [sep] else []) ++
    [sep].intercalate n.segments

/- The normal path that leads where a path leads. -/
def ofPath
    (dot sep : T)
    (path : List T) : NormalPath dot sep :=
  if path.head? = some sep then
    { isAbsolute := true
      route :=
        { names :=
            Directory.walk []
              (PathNormalize.moves dot sep path) }
      names := by
        intro name hMem
        rcases Directory.mem_walk hMem with hRoot | hDown
        · simp at hRoot
        · exact PathNormalize.isName_of_mem_moves hDown
      root := fun _ => rfl }
  else
    { isAbsolute := false
      route :=
        Directory.Route.ofMoves
          (PathNormalize.moves dot sep path)
      names := by
        intro name hMem
        exact PathNormalize.isName_of_mem_moves
          (Directory.Route.mem_names_ofMoves hMem)
      root := fun hAbsolute => nomatch hAbsolute }

theorem lead_ofPath
    (path : List T)
    (d : List (List T)) :
    (ofPath dot sep path).lead d =
      PathNormalize.walk dot sep d path := by
  unfold ofPath PathNormalize.walk lead
  split
  · rfl
  · exact Directory.Route.ofMoves_act _ _

end NormalPath

end Inks

------------------------------------------------------------
-- The Stack of Segments
------------------------------------------------------------

namespace Inks

namespace PathNormalize

variable {T : Type*} [DecidableEq T] {dot sep : T}

/- From the root, the segments are where the walk is. -/
theorem pushToken_absolute
    {segments : List (List T)}
    {token : List T}
    (hNames : [dot, dot] ∉ segments)
    (hToken : token ≠ []) :
    pushToken dot true segments token =
      match move dot token with
      | none => segments
      | some move => Directory.go segments move := by
  unfold pushToken move
  by_cases hStay : token = [dot]
  · simp [hStay]
  · by_cases hUp : token = [dot, dot]
    · by_cases hEmpty : segments = []
      · simp [hUp, hEmpty, Directory.go]
      · have hLast :
            segments.getLast? ≠ some [dot, dot] := by
          intro hLast
          exact hNames (List.mem_of_getLast? hLast)
        simp [hUp, hEmpty, hLast, Directory.go]
    · simp [hToken, hStay, hUp, Directory.go]

/- Otherwise they are the reduced route of the moves. -/
theorem pushToken_relative
    {r : Directory.Route (List T)}
    {token : List T}
    (hNames : [dot, dot] ∉ r.names)
    (hToken : token ≠ []) :
    pushToken dot false
        (List.replicate r.ups [dot, dot] ++ r.names) token =
      match move dot token with
      | none => List.replicate r.ups [dot, dot] ++ r.names
      | some move =>
          List.replicate (r.push move).ups [dot, dot] ++
            (r.push move).names := by
  unfold pushToken move
  by_cases hStay : token = [dot]
  · simp [hStay]
  · by_cases hUp : token = [dot, dot]
    · by_cases hEmpty : r.names = []
      · cases hUps : r.ups with
        | zero =>
            simp [hUp, hEmpty, hUps, Directory.Route.push]
        | succ n =>
            simp [hUp, hEmpty, hUps, Directory.Route.push,
              List.replicate_succ']
      · have hLast :
            r.names.getLast? ≠ some [dot, dot] := by
          intro hLast
          exact hNames (List.mem_of_getLast? hLast)
        simp [hUp, hEmpty, hLast, Directory.Route.push]
    · simp [hToken, hStay, hUp, Directory.Route.push]

/- A token with two dots is never a name on the stack. -/
theorem dotdot_notMem_walk
    (tokens : List (List T)) :
    [dot, dot] ∉
      Directory.walk [] (tokens.filterMap (move dot)) := by
  intro hMem
  rcases Directory.mem_walk hMem with hRoot | hDown
  · simp at hRoot
  · rcases List.mem_filterMap.mp hDown with
      ⟨token, _, hMove⟩
    exact (move_eq_down hMove).2.2 rfl

theorem foldl_absolute
    {tokens : List (List T)}
    (hTokens : ∀ token ∈ tokens, token ≠ []) :
    tokens.foldl (pushToken dot true) [] =
      Directory.walk [] (tokens.filterMap (move dot)) := by
  induction tokens using List.reverseRecOn with
  | nil => rfl
  | append_singleton tokens token ih =>
      have hBefore : ∀ token ∈ tokens, token ≠ [] :=
        fun token hMem =>
          hTokens token (List.mem_append_left _ hMem)
      have hLast : token ≠ [] := hTokens token (by simp)
      rw [List.foldl_append, ih hBefore,
        List.filterMap_append, Directory.walk_append,
        List.foldl_cons, List.foldl_nil,
        pushToken_absolute (dotdot_notMem_walk tokens)
          hLast]
      cases hMove : move dot token <;> simp [hMove]

theorem foldl_relative
    {tokens : List (List T)}
    (hTokens : ∀ token ∈ tokens, token ≠ []) :
    tokens.foldl (pushToken dot false) [] =
      let r :=
        Directory.Route.ofMoves (tokens.filterMap (move dot))
      List.replicate r.ups [dot, dot] ++ r.names := by
  induction tokens using List.reverseRecOn with
  | nil => rfl
  | append_singleton tokens token ih =>
      have hBefore : ∀ token ∈ tokens, token ≠ [] :=
        fun token hMem =>
          hTokens token (List.mem_append_left _ hMem)
      have hLast : token ≠ [] := hTokens token (by simp)
      have hNames :
          [dot, dot] ∉
            (Directory.Route.ofMoves
              (tokens.filterMap (move dot))).names := by
        intro hMem
        rcases List.mem_filterMap.mp
            (Directory.Route.mem_names_ofMoves hMem) with
          ⟨other, _, hMove⟩
        exact (move_eq_down hMove).2.2 rfl
      rw [List.foldl_append, ih hBefore, List.foldl_cons,
        List.foldl_nil, pushToken_relative hNames hLast,
        List.filterMap_append]
      cases hMove : move dot token with
      | none => simp [hMove]
      | some move =>
          simp [hMove, Directory.Route.ofMoves_concat]

end PathNormalize

namespace NormalPath

variable {T : Type*} [DecidableEq T] {dot sep : T}

/- The scan comes to the segments of the normal path. -/
theorem scan_segments
    (path : List T) :
    PathNormalize.scan dot sep
        (decide (path.head? = some sep)) path [] =
      (ofPath dot sep path).segments := by
  have hTokens :
      ∀ token ∈ Split.tokens sep path, token ≠ [] :=
    fun token hMem => (Split.mem_tokens hMem).1
  rw [PathNormalize.scan_eq]
  unfold ofPath segments
  split
  · rename_i hAbsolute
    simp only [hAbsolute, decide_true]
    rw [PathNormalize.foldl_absolute hTokens,
      PathNormalize.moves_eq]
    simp
  · rename_i hRelative
    simp only [hRelative, decide_false]
    rw [PathNormalize.foldl_relative hTokens,
      PathNormalize.moves_eq]

theorem isAbsolute_ofPath
    (path : List T) :
    (ofPath dot sep path).isAbsolute =
      decide (path.head? = some sep) := by
  unfold ofPath
  split
  · rename_i hAbsolute
    simp [hAbsolute]
  · rename_i hRelative
    simp [hRelative]

/- The function computes the string of the normal path. -/
theorem render_ofPath
    (path : List T) :
    pathNormalize dot path sep =
      (ofPath dot sep path).render := by
  unfold pathNormalize render
  rw [isAbsolute_ofPath, ← scan_segments]
  by_cases hEmpty : path = []
  · subst hEmpty
    rw [PathNormalize.scan]
    simp
  · rw [if_neg hEmpty]

end NormalPath

end Inks

------------------------------------------------------------
-- The Rendered Path
------------------------------------------------------------

namespace Inks

namespace NormalPath

variable {T : Type*} [DecidableEq T] {dot sep : T}

/- A separator other than `.` is in no segment. -/
omit [DecidableEq T] in
theorem isToken_segments
    (hSep : sep ≠ dot)
    (n : NormalPath dot sep) :
    ∀ segment ∈ n.segments,
      segment ≠ [] ∧ sep ∉ segment := by
  intro segment hMem
  rcases List.mem_append.mp hMem with hUp | hName
  · rw [(List.mem_replicate.mp hUp).2]
    simp [hSep]
  · rcases n.names segment hName with
      ⟨hNonempty, hNotMem, _⟩
    exact ⟨hNonempty, hNotMem⟩

omit [DecidableEq T] in
theorem head_intercalate
    (hSep : sep ≠ dot)
    (n : NormalPath dot sep) :
    ([sep].intercalate n.segments).head? ≠ some sep := by
  have hTokens := n.isToken_segments hSep
  cases hSegments : n.segments with
  | nil => simp
  | cons first later =>
      rw [hSegments] at hTokens
      rcases hTokens first List.mem_cons_self with
        ⟨hNonempty, hNotMem⟩
      rcases List.exists_cons_of_ne_nil hNonempty with
        ⟨c, rest, rfl⟩
      have hNe : c ≠ sep := by
        rintro rfl
        simp at hNotMem
      cases later <;> simpa using hNe

omit [DecidableEq T] in
theorem head_render_iff
    (hSep : sep ≠ dot)
    (n : NormalPath dot sep) :
    n.render.head? = some sep ↔ n.isAbsolute = true := by
  unfold render
  cases n.isAbsolute with
  | true => simp
  | false => simpa using n.head_intercalate hSep

theorem tokens_render
    (hSep : sep ≠ dot)
    (n : NormalPath dot sep) :
    Split.tokens sep n.render = n.segments := by
  have hTokens :=
    Split.splitOn_intercalate_tokens
      (n.isToken_segments hSep)
  unfold render
  cases n.isAbsolute with
  | true => simpa using hTokens
  | false => simpa using hTokens

/- The segments of the string are those of the path. -/
theorem segments_render
    (hSep : sep ≠ dot)
    (n : NormalPath dot sep) :
    PathNormalize.segments sep n.render = n.segments := by
  have hBody :
      (if n.render.head? = some sep then
        n.render.tail
      else
        n.render) = [sep].intercalate n.segments := by
    by_cases hAbsolute : n.isAbsolute = true
    · rw [if_pos ((n.head_render_iff hSep).mpr hAbsolute)]
      simp [render, hAbsolute]
    · rw [if_neg (mt (n.head_render_iff hSep).mp hAbsolute)]
      simp [render, hAbsolute]
  have hTokens := n.isToken_segments hSep
  unfold PathNormalize.segments
  rw [hBody]
  cases hSegments : n.segments with
  | nil => simp
  | cons first later =>
      rw [hSegments] at hTokens
      have hNonempty :
          [sep].intercalate (first :: later) ≠ [] := by
        have hFirst := (hTokens first List.mem_cons_self).1
        cases later <;> simp [hFirst]
      simp only [if_neg hNonempty]
      exact List.splitOn_intercalate sep
        (fun segment hMem => (hTokens segment hMem).2)
        (by simp)

/- The string leads where the normal path leads. -/
theorem walk_render
    (hSep : sep ≠ dot)
    (n : NormalPath dot sep)
    (d : List (List T)) :
    PathNormalize.walk dot sep d n.render = n.lead d := by
  have hNames :
      n.route.names.filterMap (PathNormalize.move dot) =
        n.route.names.map Directory.Move.down := by
    rw [← List.filterMap_eq_map]
    apply List.filterMap_congr
    intro name hMem
    rcases n.names name hMem with
      ⟨hNonempty, _, hDot, hUp⟩
    simp [PathNormalize.move, hNonempty, hDot, hUp]
  have hMoves :
      PathNormalize.moves dot sep n.render =
        List.replicate n.route.ups Directory.Move.up ++
          n.route.names.map Directory.Move.down := by
    rw [PathNormalize.moves_eq, tokens_render hSep,
      segments, List.filterMap_append, hNames]
    simp [PathNormalize.move]
  unfold PathNormalize.walk lead
  rw [hMoves, Directory.Route.walk_moves]
  by_cases hAbsolute : n.isAbsolute = true
  · rw [if_pos ((n.head_render_iff hSep).mpr hAbsolute),
      if_pos hAbsolute, Directory.Route.act]
    simp
  · rw [if_neg (mt (n.head_render_iff hSep).mp hAbsolute),
      if_neg hAbsolute]

end NormalPath

end Inks

------------------------------------------------------------
-- Uniqueness
------------------------------------------------------------

namespace Inks

namespace PathNormalize

variable {T : Type*} [DecidableEq T] {dot sep : T}

/- A directory of the tree: every name in it is a name. -/
def IsDirectory
    (dot sep : T)
    (d : List (List T)) : Prop :=
  ∀ name ∈ d, IsName dot sep name

/- Three dots and more are a name. -/
omit [DecidableEq T] in
theorem isName_dots
    (hSep : sep ≠ dot)
    (n : Nat) :
    IsName dot sep (List.replicate (n + 3) dot) := by
  refine ⟨?_, ?_, ?_, ?_⟩
  · simp
  · intro hMem
    exact hSep (List.eq_of_mem_replicate hMem)
  · intro hEq
    have hLength := congrArg List.length hEq
    simp at hLength
  · intro hEq
    have hLength := congrArg List.length hEq
    simp at hLength

omit [DecidableEq T] in
theorem isDirectory_replicate
    {name : List T}
    (hName : IsName dot sep name)
    (n : Nat) :
    IsDirectory dot sep (List.replicate n name) := by
  intro other hMem
  rw [List.eq_of_mem_replicate hMem]
  exact hName

end PathNormalize

namespace NormalPath

variable {T : Type*} [DecidableEq T] {dot sep : T}

/- What leads to one place from everywhere is absolute. -/
omit [DecidableEq T] in
theorem isAbsolute_of_lead
    (hSep : sep ≠ dot)
    {n m : NormalPath dot sep}
    (hSame :
      ∀ d, PathNormalize.IsDirectory dot sep d →
        n.lead d = m.lead d)
    (hAbsolute : n.isAbsolute = true) :
    m.isAbsolute = true := by
  by_contra hRelative
  rcases m.route.exists_act_ne n.route.names
      (List.replicate 3 dot) with
    ⟨i, hNe⟩
  have hLead :=
    hSame _
      (PathNormalize.isDirectory_replicate
        (PathNormalize.isName_dots hSep 0) i)
  rw [lead, if_pos hAbsolute, lead, if_neg hRelative]
    at hLead
  exact hNe hLead.symm

/- Where they lead tells normal paths apart. -/
omit [DecidableEq T] in
theorem eq_of_lead
    (hSep : sep ≠ dot)
    {n m : NormalPath dot sep}
    (hSame :
      ∀ d, PathNormalize.IsDirectory dot sep d →
        n.lead d = m.lead d) :
    n = m := by
  have hSame' :
      ∀ d, PathNormalize.IsDirectory dot sep d →
        m.lead d = n.lead d :=
    fun d hDirectory => (hSame d hDirectory).symm
  by_cases hAbsolute : n.isAbsolute = true
  · have hOther := isAbsolute_of_lead hSep hSame hAbsolute
    have hRoot : PathNormalize.IsDirectory dot sep [] := by
      simp [PathNormalize.IsDirectory]
    have hNames := hSame [] hRoot
    rw [lead, if_pos hAbsolute, lead, if_pos hOther]
      at hNames
    have hUps : n.route.ups = m.route.ups := by
      rw [n.root hAbsolute, m.root hOther]
    exact
      NormalPath.ext (hAbsolute.trans hOther.symm)
        (Directory.Route.ext hUps hNames)
  · have hOther : ¬ m.isAbsolute = true :=
      fun hAbs =>
        hAbsolute (isAbsolute_of_lead hSep hSame' hAbs)
    have hNe :
        List.replicate (0 + 3) dot ≠
          List.replicate (1 + 3) dot := by
      intro hEq
      have hLength := congrArg List.length hEq
      simp at hLength
    have hRoute : n.route = m.route := by
      apply Directory.Route.eq_of_act hNe
      intro i name hName
      have hIsName : PathNormalize.IsName dot sep name := by
        rcases hName with rfl | rfl
        · exact PathNormalize.isName_dots hSep 0
        · exact PathNormalize.isName_dots hSep 1
      have hLead :=
        hSame _
          (PathNormalize.isDirectory_replicate hIsName i)
      rw [lead, if_neg hAbsolute, lead, if_neg hOther]
        at hLead
      exact hLead
    have hFlag : n.isAbsolute = m.isAbsolute := by
      rw [Bool.not_eq_true] at hAbsolute hOther
      rw [hAbsolute, hOther]
    exact NormalPath.ext hFlag hRoute

end NormalPath

end Inks

------------------------------------------------------------
-- Canonical Form
------------------------------------------------------------

namespace Inks

namespace PathNormalize

variable {T : Type*} [DecidableEq T]

/-
  The normalized path leads where the path leads, it is in
  normal form and is its own normal form, and paths that
  lead to the same places are normalized to the same path.
-/
structure Canonical
    (dot sep : T)
    (path : List T) : Prop where
  walks :
    ∀ d, walk dot sep d (pathNormalize dot path sep) =
      walk dot sep d path
  plain :
    ∀ segment ∈ segments sep (pathNormalize dot path sep),
      segment ≠ [] ∧ segment ≠ [dot]
  absolute :
    (pathNormalize dot path sep).head? = some sep →
      [dot, dot] ∉ segments sep (pathNormalize dot path sep)
  relative :
    ∃ n names,
      segments sep (pathNormalize dot path sep) =
        List.replicate n [dot, dot] ++ names ∧
      [dot, dot] ∉ names
  idempotent :
    pathNormalize dot (pathNormalize dot path sep) sep =
      pathNormalize dot path sep
  unique :
    ∀ other,
      pathNormalize dot path sep =
          pathNormalize dot other sep ↔
        ∀ d, IsDirectory dot sep d →
          walk dot sep d path = walk dot sep d other

theorem walk_pathNormalize
    {dot sep : T}
    (hSep : sep ≠ dot)
    (path : List T)
    (d : List (List T)) :
    walk dot sep d (pathNormalize dot path sep) =
      walk dot sep d path := by
  rw [NormalPath.render_ofPath, NormalPath.walk_render hSep,
    NormalPath.lead_ofPath]

theorem pathNormalize_eq_iff
    {dot sep : T}
    (hSep : sep ≠ dot)
    (path other : List T) :
    pathNormalize dot path sep =
        pathNormalize dot other sep ↔
      ∀ d, IsDirectory dot sep d →
        walk dot sep d path = walk dot sep d other := by
  constructor
  · intro hSame d _
    rw [← walk_pathNormalize hSep path, hSame,
      walk_pathNormalize hSep other]
  · intro hSame
    have hNormal :
        NormalPath.ofPath dot sep path =
          NormalPath.ofPath dot sep other := by
      apply NormalPath.eq_of_lead hSep
      intro d hDirectory
      rw [NormalPath.lead_ofPath, NormalPath.lead_ofPath]
      exact hSame d hDirectory
    rw [NormalPath.render_ofPath, NormalPath.render_ofPath,
      hNormal]

theorem path_normalize_canonical
    {dot sep : T}
    (hSep : sep ≠ dot)
    (path : List T) :
    Canonical dot sep path := by
  have hUp :
      [dot, dot] ∉
        (NormalPath.ofPath dot sep path).route.names := by
    intro hMem
    exact ((NormalPath.ofPath dot sep path).names _
      hMem).2.2.2 rfl
  have hSegments :
      segments sep (pathNormalize dot path sep) =
        List.replicate
            (NormalPath.ofPath dot sep path).route.ups
            [dot, dot] ++
          (NormalPath.ofPath dot sep path).route.names := by
    rw [NormalPath.render_ofPath,
      NormalPath.segments_render hSep]
    rfl
  constructor
  · exact walk_pathNormalize hSep path
  · rw [hSegments]
    intro segment hMem
    rcases List.mem_append.mp hMem with hUps | hName
    · rw [(List.mem_replicate.mp hUps).2]
      simp
    · rcases (NormalPath.ofPath dot sep path).names segment
          hName with
        ⟨hNonempty, _, hDot, _⟩
      exact ⟨hNonempty, hDot⟩
  · intro hAbsolute
    rw [NormalPath.render_ofPath,
      NormalPath.head_render_iff hSep] at hAbsolute
    rw [hSegments,
      (NormalPath.ofPath dot sep path).root hAbsolute]
    simpa using hUp
  · exact ⟨_, _, hSegments, hUp⟩
  · rw [pathNormalize_eq_iff hSep]
    intro d _
    exact walk_pathNormalize hSep path d
  · exact pathNormalize_eq_iff hSep path

theorem path_normalize_canonical_slash :
    Canonical Ascii.dot Ascii.slash
      (text "../../alpha/../beta//./") :=
  path_normalize_canonical (by decide) _

end PathNormalize

end Inks

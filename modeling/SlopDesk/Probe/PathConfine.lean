/-
SlopDesk.Probe.PathConfine — the one answer to "is this path confined to this
root".

A path is the bytes of its string. §1 `components`, `is_confinable_absolute`
and `confine`. §2 what a path names, apart from how the code finds out. §3
`components` answers with the names of a path that may be acted on, and
`confine` with the spelling of what the candidate names.
-/
import SlopDesk.Base.Fields

namespace SlopDesk.Probe

open SlopDesk.Base

/-! ## §1 The rule -/

def slash : UInt8 := 0x2F
def dot : List UInt8 := [0x2E]
def dotDot : List UInt8 := [0x2E, 0x2E]

/-- What shape the candidate argument is allowed to arrive in. -/
inductive Shape where
  | either
  | relativeOnly
  | absoluteOnly
  deriving DecidableEq

/-- A candidate that survived the rule: the normalised absolute path, and
where in it the part below the root begins. -/
structure Confined where
  absolute : List UInt8
  relativeOffset : Nat
  deriving DecidableEq

/-- The part of the path below the root, with no leading `/`. -/
def Confined.relative (found : Confined) : List UInt8 := found.absolute.drop found.relativeOffset

/-- `starts_with('/')`. -/
def isAbsolute (path : List UInt8) : Bool := path.head? == some slash

/-- The loop of `components` over the parts still to come. -/
def gather (parts : List (List UInt8)) : List (List UInt8) → Option (List (List UInt8))
  | [] => some parts
  | part :: rest =>
    if part = [] ∨ part = dot then
      gather parts rest
    else if part = dotDot then
      none
    else
      gather (parts ++ [part]) rest

/-- The components of a path, or `none` when it may not be acted on at all. -/
def components (path : List UInt8) : Option (List (List UInt8)) :=
  if 0 ∈ path then none else gather [] (path.splitOn slash)

/-- Whether this module could ever confine `candidate`. -/
def isConfinableAbsolute (candidate : List UInt8) : Bool :=
  isAbsolute candidate && (components candidate).any (· ≠ [])

def wrongShape (shape : Shape) (candidateIsAbsolute : Bool) : Bool :=
  match shape with
  | .either => false
  | .relativeOnly => candidateIsAbsolute
  | .absoluteOnly => !candidateIsAbsolute

/-- Confines `candidate` to `root`. -/
def confine (root candidate : List UInt8) (shape : Shape) : Option Confined :=
  if !isAbsolute root then
    none
  else do
    let rootParts ← components root
    if rootParts = [] then
      none
    -- An empty candidate is not the root: it is an argument that went missing.
    else if candidate = [] then
      none
    else if wrongShape shape (isAbsolute candidate) then
      none
    else
      let candidateParts ← components candidate
      let full := if isAbsolute candidate then candidateParts else rootParts ++ candidateParts
      if !rootParts.isPrefixOf full then
        none
      else
        let absolute := spell slash full
        let rootLen := (rootParts.map (·.length + 1)).sum
        some ⟨absolute, if full.length = rootParts.length then absolute.length else rootLen + 1⟩

/-! ## §2 What a path names -/

/-- A part that says something about where the path leads. -/
def meaningful (part : List UInt8) : Bool := part ≠ [] && part ≠ dot

/-- The components of a path, `..` among them. -/
def names (path : List UInt8) : List (List UInt8) := (path.splitOn slash).filter meaningful

/-- No NUL, and no component that climbs. -/
structure Plain (path : List UInt8) : Prop where
  noNul : 0 ∉ path
  noParent : dotDot ∉ path.splitOn slash

instance : DecidablePred Plain := fun path =>
  decidable_of_iff (0 ∉ path ∧ dotDot ∉ path.splitOn slash) ⟨fun h => ⟨h.1, h.2⟩, fun h => ⟨h.1, h.2⟩⟩

/-- A component as a normalised path has them. -/
structure IsName (part : List UInt8) : Prop where
  meaningful : meaningful part = true
  noParent : part ≠ dotDot
  noSlash : slash ∉ part
  noNul : 0 ∉ part

/-- The components of what a candidate names: an absolute one stands alone,
a relative one is joined to the root. -/
def named (root candidate : List UInt8) : List (List UInt8) :=
  if isAbsolute candidate then names candidate else names root ++ names candidate

/-- A path with `/` in front of every component and nothing that could be
left out. -/
structure Normalised (path : List UInt8) : Prop where
  rooted : path.head? = some slash
  parts : ∀ part ∈ path.tail.splitOn slash, IsName part

/-- The root is a base, the candidate has the allowed shape, neither climbs
nor holds a NUL, and the candidate names the root or something below it. -/
structure Admitted (root candidate : List UInt8) (shape : Shape) : Prop where
  rooted : isAbsolute root = true
  based : names root ≠ []
  shaped : wrongShape shape (isAbsolute candidate) = false
  plainRoot : Plain root
  plainCandidate : Plain candidate
  within : names root <+: named root candidate

instance (root candidate : List UInt8) (shape : Shape) : Decidable (Admitted root candidate shape) :=
  decidable_of_iff (isAbsolute root = true ∧ names root ≠ [] ∧
      wrongShape shape (isAbsolute candidate) = false ∧ Plain root ∧ Plain candidate ∧
      names root <+: named root candidate)
    ⟨fun ⟨h₁, h₂, h₃, h₄, h₅, h₆⟩ => ⟨h₁, h₂, h₃, h₄, h₅, h₆⟩,
      fun ⟨h₁, h₂, h₃, h₄, h₅, h₆⟩ => ⟨h₁, h₂, h₃, h₄, h₅, h₆⟩⟩

/-! ## §3 The code against the names -/

@[simp] theorem names_nil : names [] = [] := rfl

@[simp] theorem names_append_slash (before after : List UInt8) :
    names (before ++ slash :: after) = names before ++ names after := by
  rw [names, List.splitOn_append_cons_self, List.filter_append]
  rfl

@[simp] theorem names_slash (after : List UInt8) : names (slash :: after) = names after :=
  names_append_slash [] after

theorem plain_append_slash {before after : List UInt8} :
    Plain (before ++ slash :: after) ↔ Plain before ∧ Plain after := by
  have hslash : (0 : UInt8) ≠ slash := by decide
  constructor
  · intro h
    have hnul := h.noNul
    have hparent := h.noParent
    rw [List.splitOn_append_cons_self] at hparent
    simp only [List.mem_append, List.mem_cons, not_or] at hnul hparent
    exact ⟨⟨hnul.1, hparent.1⟩, ⟨hnul.2.2, hparent.2⟩⟩
  · rintro ⟨hbefore, hafter⟩
    refine ⟨?_, ?_⟩
    · simp [hbefore.noNul, hafter.noNul, hslash]
    · rw [List.splitOn_append_cons_self]
      simp [hbefore.noParent, hafter.noParent]

theorem plain_slash {after : List UInt8} : Plain (slash :: after) ↔ Plain after := by
  have hempty : Plain [] := by decide
  have hsplit : Plain ([] ++ slash :: after) ↔ _ := plain_append_slash
  simpa [hempty] using hsplit

theorem Plain.isName {path : List UInt8} (h : Plain path) : ∀ part ∈ names path, IsName part := by
  intro part hpart
  obtain ⟨hmem, hmeaningful⟩ := List.mem_filter.mp hpart
  refine ⟨hmeaningful, ?_, ?_, ?_⟩
  · rintro rfl
    exact h.noParent hmem
  · intro hslash
    exact (of_mem_splitOn part hmem slash hslash).2 rfl
  · intro hnul
    exact h.noNul (of_mem_splitOn part hmem 0 hnul).1

theorem gather_eq (parts rest : List (List UInt8)) :
    gather parts rest = if dotDot ∈ rest then none else some (parts ++ rest.filter meaningful) := by
  induction rest generalizing parts with
  | nil => simp [gather]
  | cons part rest ih =>
    rw [gather]
    by_cases hidle : part = [] ∨ part = dot
    · have hparent : dotDot ≠ part := by rcases hidle with rfl | rfl <;> decide
      have hdropped : meaningful part = false := by rcases hidle with rfl | rfl <;> decide
      rw [if_pos hidle, ih]
      simp [hparent, hdropped]
    · rw [if_neg hidle]
      by_cases hparent : part = dotDot
      · simp [hparent]
      · have hkept : meaningful part = true := by simpa [meaningful, not_or] using hidle
        rw [if_neg hparent, ih]
        simp [Ne.symm hparent, hkept]

/-- `components` answers for the plain paths, with what they name. -/
theorem components_eq (path : List UInt8) :
    components path = if Plain path then some (names path) else none := by
  rw [components, gather_eq]
  by_cases hnul : 0 ∈ path
  · rw [if_pos hnul, if_neg fun h => h.noNul hnul]
  · rw [if_neg hnul]
    by_cases hparent : dotDot ∈ path.splitOn slash
    · rw [if_pos hparent, if_neg fun h => h.noParent hparent]
    · rw [if_neg hparent, if_pos ⟨hnul, hparent⟩]
      rfl

/-- The answer `confine` spells for `full`, under a root of these components. -/
def answer (rootParts full : List (List UInt8)) : Confined :=
  ⟨spell slash full,
    if full.length = rootParts.length then (spell slash full).length
    else (rootParts.map (·.length + 1)).sum + 1⟩

theorem confine_eq (root candidate : List UInt8) (shape : Shape) : confine root candidate shape =
      if candidate ≠ [] ∧ Admitted root candidate shape then some (answer (names root) (named root candidate))
      else none := by
  have refused (h : ¬ Admitted root candidate shape) :
      (if candidate ≠ [] ∧ Admitted root candidate shape then
        some (answer (names root) (named root candidate)) else none) = none := if_neg fun hall => h hall.2
  rw [confine, components_eq, components_eq]
  by_cases hrooted : isAbsolute root = true
  swap
  · rw [refused fun h => hrooted h.rooted]
    simp [hrooted]
  by_cases hplain : Plain root
  swap
  · rw [refused fun h => hplain h.plainRoot]
    simp [hplain]
  by_cases hbased : names root = []
  · rw [refused fun h => h.based hbased]
    simp [hplain, hbased]
  by_cases hgiven : candidate = []
  · simp [hplain, hgiven]
  by_cases hshaped : wrongShape shape (isAbsolute candidate) = true
  · rw [refused fun h => by simp [h.shaped] at hshaped]
    simp [hplain, hshaped]
  by_cases hcandidate : Plain candidate
  swap
  · rw [refused fun h => hcandidate h.plainCandidate]
    simp [hplain, hcandidate]
  have hadmitted : Admitted root candidate shape ↔ names root <+: named root candidate :=
    ⟨fun h => h.within, fun h => ⟨hrooted, hbased, by simpa using hshaped, hplain, hcandidate, h⟩⟩
  have hfull : (if isAbsolute candidate then names candidate else names root ++ names candidate) =
      named root candidate := rfl
  by_cases hwithin : names root <+: named root candidate
  · have hprefix : (names root).isPrefixOf (named root candidate) = true := by simpa using hwithin
    simp [hadmitted, hwithin, hrooted, hplain, hbased, hgiven, hshaped, hcandidate, hfull, hprefix, answer]
  · have hprefix : (names root).isPrefixOf (named root candidate) = false := by
      simpa [← List.isPrefixOf_iff_prefix] using hwithin
    simp [hadmitted, hwithin, hrooted, hplain, hbased, hgiven, hshaped, hcandidate, hfull, hprefix]

end SlopDesk.Probe

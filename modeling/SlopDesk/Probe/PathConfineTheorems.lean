/-
SlopDesk.Probe.PathConfineTheorems — what `confine` answers.

§1 a normalised path is the spelling of what it names, and the only one. §2
the answer and its relative part name what the candidate names. §3 spellings
of one path. §4 the rule as a whole.
-/
import Mathlib.Logic.Relation
import SlopDesk.Probe.PathConfine

namespace SlopDesk.Probe

open SlopDesk.Base

variable {root candidate path : List UInt8} {shape : Shape} {found : Confined} {parts : List (List UInt8)}
variable {other one : List UInt8}

/-! ## §1 Normalised paths -/

theorem names_spell (h : ∀ part ∈ parts, IsName part) : names (spell slash parts) = parts := by
  rw [names, splitOn_spell fun part hpart => (h part hpart).noSlash, List.filter_cons_of_neg (by decide)]
  exact List.filter_eq_self.mpr fun part hpart => (h part hpart).meaningful

theorem names_intercalate (h : ∀ part ∈ parts, IsName part) : names ([slash].intercalate parts) = parts := by
  by_cases hne : parts = []
  · simp [hne]
  · have hspelt := names_spell h
    rwa [spell_of_ne_nil hne, names_slash] at hspelt

theorem plain_intercalate (h : ∀ part ∈ parts, IsName part) : Plain ([slash].intercalate parts) := by
  by_cases hne : parts = []
  · rw [hne]
    decide
  · refine ⟨?_, ?_⟩
    · intro hnul
      rcases of_mem_intercalate hnul with hslash | ⟨part, hpart, hmem⟩
      · exact absurd hslash (by decide)
      · exact (h part hpart).noNul hmem
    · rw [List.splitOn_intercalate slash (fun part hpart => (h part hpart).noSlash) hne]
      exact fun hparent => (h _ hparent).noParent rfl

theorem plain_spell (h : ∀ part ∈ parts, IsName part) : Plain (spell slash parts) := by
  by_cases hne : parts = []
  · rw [hne]
    decide
  · rw [spell_of_ne_nil hne, plain_slash]
    exact plain_intercalate h

theorem isAbsolute_spell (h : parts ≠ []) : isAbsolute (spell slash parts) = true := by
  rw [spell_of_ne_nil h, isAbsolute]
  simp

/-- What is below the root is spelled without a leading `/`. -/
theorem isAbsolute_intercalate (h : ∀ part ∈ parts, IsName part) :
    isAbsolute ([slash].intercalate parts) = false := by
  cases parts with
  | nil => rfl
  | cons part rest =>
    have hname := h part List.mem_cons_self
    cases part with
    | nil => exact absurd hname.meaningful (by decide)
    | cons b bs =>
      have hb : b ≠ slash := fun heq => hname.noSlash (by simp [heq])
      cases rest with
      | nil => simpa [isAbsolute] using hb
      | cons second rest =>
        rw [List.intercalate_cons_cons]
        simpa [isAbsolute] using hb

theorem normalised_spell (h : ∀ part ∈ parts, IsName part) (hne : parts ≠ []) :
    Normalised (spell slash parts) := by
  rw [spell_of_ne_nil hne]
  refine ⟨rfl, ?_⟩
  rw [List.tail_cons, List.splitOn_intercalate slash (fun part hpart => (h part hpart).noSlash) hne]
  exact h

/-- A normalised path is spelled by what it names. -/
theorem Normalised.spelled (h : Normalised path) : path = spell slash (names path) := by
  obtain ⟨tail, rfl⟩ := List.head?_eq_some_iff.mp h.rooted
  have hkept : names (slash :: tail) = tail.splitOn slash := by
    rw [names_slash]
    exact List.filter_eq_self.mpr fun part hpart => (h.parts part hpart).meaningful
  rw [hkept, spell_of_ne_nil (List.splitOn_ne_nil slash tail), List.intercalate_splitOn]

/-! ## §2 The answer -/

theorem confine_some : confine root candidate shape = some found ↔
    candidate ≠ [] ∧ Admitted root candidate shape ∧ found = answer (names root) (named root candidate) := by
  rw [confine_eq]
  by_cases h : candidate ≠ [] ∧ Admitted root candidate shape
  · rw [if_pos h]
    simp [h, eq_comm]
  · rw [if_neg h]
    simp only [reduceCtorEq, false_iff]
    exact fun hall => h ⟨hall.1, hall.2.1⟩

theorem Admitted.names_below (h : Admitted root candidate shape) :
    ∃ below, names root ++ below = named root candidate ∧ ∀ part ∈ below, IsName part := by
  obtain ⟨below, hbelow⟩ := h.within
  refine ⟨below, hbelow, ?_⟩
  intro part hpart
  rw [named] at hbelow
  split at hbelow
  · exact h.plainCandidate.isName part (by rw [← hbelow]; exact List.mem_append_right _ hpart)
  · rw [List.append_cancel_left hbelow] at hpart
    exact h.plainCandidate.isName part hpart

theorem answer_relative (rootParts below : List (List UInt8)) :
    (answer rootParts (rootParts ++ below)).relative = [slash].intercalate below := by
  by_cases hbelow : below = []
  · simp [answer, Confined.relative, hbelow]
  · have hlonger : rootParts.length + below.length ≠ rootParts.length := by
      have := List.length_pos_iff.mpr hbelow
      omega
    have hlength : (spell slash rootParts).length = _ := length_spell rootParts
    rw [answer, Confined.relative, List.length_append, if_neg hlonger, ← hlength, spell_append,
      spell_of_ne_nil hbelow, ← List.drop_drop]
    simp

/-- Any other argument that names the same is answered the same. -/
theorem Admitted.again {shape' : Shape} (h : Admitted root candidate shape)
    (hgiven : other ≠ []) (hshaped : wrongShape shape' (isAbsolute other) = false) (hplain : Plain other)
    (hnamed : named root other = named root candidate) :
    confine root other shape' = some (answer (names root) (named root candidate)) :=
  confine_some.mpr ⟨hgiven, ⟨h.rooted, h.based, hshaped, h.plainRoot, hplain, hnamed ▸ h.within⟩, by rw [hnamed]⟩

section

variable {below : List (List UInt8)} {shape' : Shape}

theorem Admitted.named_names (h : Admitted root candidate shape) (hbelow : names root ++ below = named root candidate)
    (hnames : ∀ part ∈ below, IsName part) : ∀ part ∈ named root candidate, IsName part := by
  intro part hpart
  rw [← hbelow] at hpart
  rcases List.mem_append.mp hpart with hpart | hpart
  · exact h.plainRoot.isName part hpart
  · exact hnames part hpart

theorem Admitted.named_ne_nil (h : Admitted root candidate shape) : named root candidate ≠ [] := by
  obtain ⟨below, hbelow⟩ := h.within
  rw [← hbelow]
  simp [h.based]

theorem named_spell (hnames : ∀ part ∈ parts, IsName part) (hne : parts ≠ []) :
    named root (spell slash parts) = parts := by
  rw [named, if_pos (isAbsolute_spell hne), names_spell hnames]

/-- The answer's path, as an argument. -/
theorem Admitted.absolute_again (h : Admitted root candidate shape)
    (hnames : ∀ part ∈ named root candidate, IsName part) (hshape : shape' ≠ .relativeOnly) :
    confine root (spell slash (named root candidate)) shape' =
      some (answer (names root) (named root candidate)) := by
  refine h.again (spell_ne_nil h.named_ne_nil) ?_ (plain_spell hnames) (named_spell hnames h.named_ne_nil)
  · rw [isAbsolute_spell h.named_ne_nil]
    cases shape' <;> simp_all [wrongShape]

/-- The answer's relative part, as an argument. -/
theorem Admitted.relative_again (h : Admitted root candidate shape)
    (hbelow : names root ++ below = named root candidate) (hnames : ∀ part ∈ below, IsName part)
    (hsome : [slash].intercalate below ≠ []) (hshape : shape' ≠ .absoluteOnly) :
    confine root ([slash].intercalate below) shape' = some (answer (names root) (named root candidate)) := by
  have hbare := isAbsolute_intercalate hnames
  refine h.again hsome ?_ (plain_intercalate hnames) ?_
  · rw [hbare]
    cases shape' <;> simp_all [wrongShape]
  · rw [named, if_neg (by simp [hbare]), names_intercalate hnames, hbelow]

/-- The answer's path, under a root that confines the root. -/
theorem Admitted.nested {outer : List UInt8} (h : Admitted root candidate shape)
    (hnames : ∀ part ∈ named root candidate, IsName part) (houter : Admitted outer root .absoluteOnly) :
    confine outer (spell slash (named root candidate)) .absoluteOnly =
      some (answer (names outer) (named root candidate)) := by
  have hnamed : named outer _ = _ := named_spell hnames h.named_ne_nil
  have hinner : named outer root = names root := if_pos h.rooted
  refine confine_some.mpr ⟨spell_ne_nil h.named_ne_nil,
    ⟨houter.rooted, houter.based, ?_, houter.plainRoot, plain_spell hnames, ?_⟩, ?_⟩
  · simp [wrongShape, isAbsolute_spell h.named_ne_nil]
  · rw [hnamed]
    exact (hinner ▸ houter.within).trans h.within
  · rw [hnamed]

end

/-- What the answer to `candidate` under `root` is. -/
structure Answered (root candidate : List UInt8) (found : Confined) : Prop where
  /-- The normalised spelling of what the candidate names, and the only one. -/
  normalised : Normalised found.absolute
  names : names found.absolute = named root candidate
  unique : ∀ path, Normalised path → Probe.names path = named root candidate → path = found.absolute
  /-- Its relative part joined to the root gives it back. -/
  joined : found.absolute =
    spell slash (Probe.names root) ++ if found.relative = [] then [] else slash :: found.relative
  relative : found.relative ≠ [] →
    ∀ shape, shape ≠ .absoluteOnly → confine root found.relative shape = some found
  /-- Confining it again returns it. -/
  again : ∀ shape, shape ≠ .relativeOnly → confine root found.absolute shape = some found
  /-- What confines the root confines it. -/
  nested : ∀ outer base, confine outer root .absoluteOnly = some base →
    ∃ deeper, confine outer found.absolute .absoluteOnly = some deeper ∧ deeper.absolute = found.absolute ∧
      Probe.names deeper.relative = Probe.names base.relative ++ Probe.names found.relative

theorem answered (h : confine root candidate shape = some found) : Answered root candidate found := by
  obtain ⟨_, hadmitted, rfl⟩ := confine_some.mp h
  obtain ⟨below, hbelow, hbelowNames⟩ := hadmitted.names_below
  have hnames := hadmitted.named_names hbelow hbelowNames
  have hrelative : (answer (names root) (named root candidate)).relative = [slash].intercalate below := by
    rw [← hbelow, answer_relative]
  have habsolute : (answer (names root) (named root candidate)).absolute = spell slash (named root candidate) := rfl
  refine ⟨?_, ?_, ?_, ?_, ?_, ?_, ?_⟩
  · exact normalised_spell hnames hadmitted.named_ne_nil
  · exact names_spell hnames
  · intro path hnormalised hpath
    rw [hnormalised.spelled, hpath, habsolute]
  · rw [habsolute, hrelative, ← hbelow, spell_append]
    by_cases hnil : below = []
    · simp [hnil]
    · have hsome : [slash].intercalate below ≠ [] := fun hempty => hnil (by
        rw [← names_intercalate hbelowNames, hempty, names_nil])
      rw [if_neg hsome, spell_of_ne_nil hnil]
  · rw [hrelative]
    exact fun hsome shape' hshape => hadmitted.relative_again hbelow hbelowNames hsome hshape
  · exact fun shape' hshape => hadmitted.absolute_again hnames hshape
  · intro outer base hbase
    obtain ⟨_, houter, rfl⟩ := confine_some.mp hbase
    obtain ⟨between, hbetween, hbetweenNames⟩ := houter.names_below
    have hinner : named outer root = names root := if_pos hadmitted.rooted
    have hfull : named root candidate = names outer ++ (between ++ below) := by
      rw [← List.append_assoc, hbetween, hinner, hbelow]
    refine ⟨_, hadmitted.nested hnames houter, rfl, ?_⟩
    rw [hrelative, hfull, ← hbetween, answer_relative, answer_relative, names_intercalate hbetweenNames,
      names_intercalate hbelowNames, names_intercalate]
    intro part hpart
    rcases List.mem_append.mp hpart with hpart | hpart
    · exact hbetweenNames part hpart
    · exact hbelowNames part hpart

/-- The question without a root is whether there is a root to confine to. -/
theorem isConfinableAbsolute_iff :
    isConfinableAbsolute candidate = true ↔ ∃ root found, confine root candidate .absoluteOnly = some found := by
  rw [isConfinableAbsolute, components_eq]
  constructor
  · intro h
    have hrooted : isAbsolute candidate = true := by
      rw [Bool.and_eq_true] at h
      exact h.1
    by_cases hplain : Plain candidate
    · have hbased : names candidate ≠ [] := by simpa [hplain, hrooted] using h
      refine ⟨candidate, _, confine_some.mpr ⟨?_, ⟨hrooted, hbased, ?_, hplain, hplain, ?_⟩, rfl⟩⟩
      · rintro rfl
        exact hbased rfl
      · simp [wrongShape, hrooted]
      · have hsame : named candidate candidate = names candidate := if_pos hrooted
        exact hsame ▸ List.prefix_refl _
    · simp [hplain] at h
  · rintro ⟨root, found, h⟩
    obtain ⟨_, hadmitted, _⟩ := confine_some.mp h
    have hrooted : isAbsolute candidate = true := by simpa [wrongShape] using hadmitted.shaped
    have hwithin := hadmitted.within
    rw [named, if_pos hrooted] at hwithin
    have hbased : names candidate ≠ [] := fun hnil =>
      hadmitted.based (List.prefix_nil.mp (by rwa [hnil] at hwithin))
    simp [hadmitted.plainCandidate, hrooted, hbased]

/-! ## §3 Spellings of one path -/

/-- One thing a spelling may have too many of: a repeated slash, a `.`
component, or a slash at the end. -/
inductive Respelled : List UInt8 → List UInt8 → Prop where
  | slashes (before after : List UInt8) :
    Respelled (before ++ slash :: slash :: after) (before ++ slash :: after)
  | innerDot (before after : List UInt8) :
    Respelled (before ++ slash :: (dot ++ slash :: after)) (before ++ slash :: after)
  | leadingDot {after : List UInt8} (h : after ≠ []) (hrelative : isAbsolute after = false) :
    Respelled (dot ++ slash :: after) after
  | trailingDot (before : List UInt8) : Respelled (before ++ slash :: dot) (before ++ [slash])
  | trailing {before : List UInt8} (h : before ≠ []) : Respelled (before ++ [slash]) before

/-- What the rule reads of a candidate. -/
structure Alike (one other : List UInt8) : Prop where
  names : names one = names other
  plain : Plain one ↔ Plain other
  rooted : isAbsolute one = isAbsolute other
  given : one = [] ↔ other = []

theorem isAbsolute_append_slash (before after more : List UInt8) :
    isAbsolute (before ++ slash :: after) = isAbsolute (before ++ slash :: more) := by
  cases before <;> rfl

theorem Respelled.alike (h : Respelled one other) : Alike one other := by
  have hdot : names dot = [] ∧ Plain dot := by decide
  have hnil : Plain [] := by decide
  cases h with
  | slashes before after =>
    exact ⟨by simp, by simp [plain_append_slash, plain_slash], isAbsolute_append_slash .., by simp⟩
  | innerDot before after =>
    exact ⟨by simp [hdot], by simp [plain_append_slash, hdot], isAbsolute_append_slash .., by simp⟩
  | leadingDot h hrelative =>
    refine ⟨by simp [hdot], by simp [plain_append_slash, hdot], ?_, by simp [h]⟩
    rw [hrelative]
    rfl
  | trailingDot before =>
    exact ⟨by simp [hdot], by simp [plain_append_slash, hdot, hnil], isAbsolute_append_slash .., by simp⟩
  | trailing h =>
    refine ⟨by simp, by simp [plain_append_slash, hnil], ?_, by simp [h]⟩
    cases other with
    | nil => exact absurd rfl h
    | cons b rest => rfl

theorem Alike.confine_eq (h : Alike one other) (root : List UInt8) (shape : Shape) :
    confine root one shape = confine root other shape := by
  have hnamed : named root one = named root other := by rw [named, named, h.names, h.rooted]
  have hadmitted : Admitted root one shape ↔ Admitted root other shape := by
    constructor
    · exact fun ha => ⟨ha.rooted, ha.based, h.rooted ▸ ha.shaped, ha.plainRoot, h.plain.mp ha.plainCandidate,
        hnamed ▸ ha.within⟩
    · exact fun ha => ⟨ha.rooted, ha.based, h.rooted ▸ ha.shaped, ha.plainRoot, h.plain.mpr ha.plainCandidate,
        hnamed ▸ ha.within⟩
  rw [Probe.confine_eq, Probe.confine_eq, hnamed]
  simp only [ne_eq, h.given, hadmitted]

theorem confine_respelled (h : Relation.EqvGen Respelled one other)
    (root : List UInt8) (shape : Shape) : confine root one shape = confine root other shape := by
  induction h with
  | rel one other step => exact step.alike.confine_eq root shape
  | refl path => rfl
  | symm one other _ ih => exact ih.symm
  | trans one between other _ _ first second => exact first.trans second

/-! ## §4 The rule -/

theorem confined (root candidate : List UInt8) (shape : Shape) :
    ((∃ found, confine root candidate shape = some found) ↔ candidate ≠ [] ∧ Admitted root candidate shape) ∧
      (∀ found, confine root candidate shape = some found → Answered root candidate found) ∧
      ∀ other, Relation.EqvGen Respelled candidate other →
        confine root candidate shape = confine root other shape := by
  refine ⟨?_, fun found => answered, fun other h => confine_respelled h root shape⟩
  constructor
  · rintro ⟨found, h⟩
    obtain ⟨hgiven, hadmitted, _⟩ := confine_some.mp h
    exact ⟨hgiven, hadmitted⟩
  · rintro ⟨hgiven, hadmitted⟩
    exact ⟨_, confine_some.mpr ⟨hgiven, hadmitted, rfl⟩⟩

/-- `/repo`. -/
def repo : List UInt8 := [0x2F, 0x72, 0x65, 0x70, 0x6F]

/-- A missing argument would name the root, and under `RelativeOnly` the
answer is no argument. -/
theorem missing_refused :
    Admitted repo [] .either ∧ confine repo [] .either = none ∧
      confine repo dot .relativeOnly = some ⟨repo, 5⟩ ∧ confine repo repo .relativeOnly = none := by
  decide

theorem confined_repo :
    Answered repo (repo ++ [0x2F, 0x61]) ⟨repo ++ [0x2F, 0x61], 6⟩ ∧
      confine repo ([0x61] ++ [0x2F]) .either = confine repo [0x61] .either :=
  ⟨(confined repo (repo ++ [0x2F, 0x61]) .either).2.1 _ (by decide),
    (confined repo ([0x61] ++ [0x2F]) .either).2.2 [0x61] (.rel _ _ (.trailing (by decide)))⟩

end SlopDesk.Probe

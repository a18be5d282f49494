import Aeqi.Lib.Binary64
import Aeqi.Lib.Text
import Mathlib.Data.Char
import Mathlib.Data.List.Infix
import Mathlib.Data.List.Lex
import Mathlib.Data.List.Sort
import Mathlib.Data.Prod.Lex

/-!
# Inferred dependencies (`dependency_inference.rs`)

Two quests whose texts name the same things are made to depend on each other, in a direction that
words of their titles decide, or their age. The classes of characters and lower-casing are
parameters, and whether a confidence reaches the threshold, which need not be a number.
-/

namespace Aeqi.Quests.Inference

open Aeqi.Lib List Option

structure Quest where
  id : String
  title : List Char
  body : List Char
  createdAt : Int
  deriving DecidableEq

structure InferredDependency where
  source : String
  target : String
  reason : List Char
  confidence : ℚ

/-- The language's tables of characters, and `confidence >= threshold`. -/
structure Env where
  isAlphanumeric : Char → Bool
  isUppercase : Char → Bool
  isLowercase : Char → Bool
  toLowercase : List Char → List Char
  reaches : ℚ → Bool

section Code

variable (env : Env)

def fileEndings : List (List Char) :=
  [".rs", ".ts", ".py", ".js", ".toml", ".json"].map (·.toList)

def trimWord (word : List Char) : List Char :=
  let mark := fun c => !env.isAlphanumeric c && c != '_' && c != '.' && c != '/'
  (word.dropWhile mark).rdropWhile mark

/-- A path, or an identifier in snake case or mixed case. -/
def isEntity (word : List Char) : Bool :=
  '/' ∈ word || fileEndings.any (fun ending => ending <:+ word) ||
    ('_' ∈ word && word.all fun c => env.isAlphanumeric c || c = '_') ||
    (word.any env.isUppercase && word.any env.isLowercase && word.all env.isAlphanumeric &&
      4 ≤ byteLength word)

def extractEntities (name description : List Char) : List (List Char) :=
  let words := (name ++ ' ' :: description).splitOnP fun c =>
    isWhitespace c || c ∈ [',', ';', '(', ')']
  let entities := ((words.map (trimWord env)).filter fun word =>
    3 ≤ byteLength word && isEntity env word).map env.toLowercase
  entities.dedup.insertionSort (· ≤ ·)

def entityOverlap (a b : List (List Char)) : Option (ℚ × List Char) :=
  let shared := a.filter b.contains
  if a = [] ∨ b = [] ∨ shared = [] then none
  else
    let total := Binary64.round ((a.length + b.length : ℕ) / 2)
    some (min (Binary64.round (shared.length / total)) 1,
      "shared entities: ".toList ++ ", ".toList.intercalate shared)

def createWords : List (List Char) :=
  ["create", "setup", "init", "add", "implement", "build", "define", "configure"].map (·.toList)

def testWords : List (List Char) :=
  ["test", "verify", "validate", "check", "deploy", "review", "document"].map (·.toList)

def isCreate (q : Quest) : Bool := createWords.any (· <:+: env.toLowercase q.title)

def isTest (q : Quest) : Bool := testWords.any (· <:+: env.toLowercase q.title)

def determineDirection (a b : Quest) : String × String :=
  if isCreate env a && isTest env b then (b.id, a.id)
  else if isCreate env b && isTest env a then (a.id, b.id)
  else if a.createdAt ≤ b.createdAt then (b.id, a.id)
  else (a.id, b.id)

def overlap (a b : Quest) : Option (ℚ × List Char) :=
  (entityOverlap (extractEntities env a.title a.body) (extractEntities env b.title b.body)).filter
    fun found => env.reaches found.1

def infer (a b : Quest) : Option InferredDependency :=
  (overlap env a b).map fun found =>
    ⟨(determineDirection env a b).1, (determineDirection env a b).2, found.2, found.1⟩

def inferDependencies : List Quest → List InferredDependency
  | [] => []
  | a :: quests => quests.filterMap (infer env a) ++ inferDependencies quests

/-! ## What is inferred -/

def Edge (quests : List Quest) (x y : String) : Prop :=
  ∃ d ∈ inferDependencies env quests, d.source = x ∧ d.target = y

/-- No cycle, and no second edge between two quests. -/
def Orderly (quests : List Quest) : Prop :=
  (∀ x, ¬ Relation.TransGen (Edge env quests) x x) ∧
    (inferDependencies env quests).Pairwise fun d e =>
      ¬ (d.source = e.source ∧ d.target = e.target) ∧ ¬ (d.source = e.target ∧ d.target = e.source)

def Waits (a b : Quest) : Prop := isTest env a = true ∧ isCreate env b = true

/-- Of two quests that overlap the one needs the other: by words, or as the later one. -/
inductive Needs (quests : List Quest) : Quest → Quest → Prop
  | later {a b} : [a, b].Sublist quests → (overlap env a b).isSome →
      Waits env b a ∨ ¬ Waits env a b ∧ a.createdAt ≤ b.createdAt → Needs quests b a
  | earlier {a b} : [a, b].Sublist quests → (overlap env a b).isSome → ¬ Waits env b a →
      Waits env a b ∨ b.createdAt < a.createdAt → Needs quests a b

/-- A quest without any of the words is in a circle with a test that is older than what it tests. -/
def Tangled (quests : List Quest) : Prop :=
  ∃ plain a b, isCreate env plain = false ∧ isTest env plain = false ∧ Needs env quests a b ∧
    Waits env a b ∧
    (a.createdAt < b.createdAt ∨ a.createdAt = b.createdAt ∧ [a, b].Sublist quests) ∧
    Relation.ReflTransGen (Needs env quests) plain a ∧
    Relation.ReflTransGen (Needs env quests) b plain

end Code

/-! ## Circles -/

section Circles

variable {α κ : Type*} [Preorder κ] {r : α → α → Prop} {a b c : α}

theorem exists_rise (key : α → κ) (h : Relation.TransGen r a a) :
    ∃ c b, Relation.ReflTransGen r a c ∧ r c b ∧ Relation.ReflTransGen r b a ∧ ¬ key b < key c := by
  by_contra hnone
  push Not at hnone
  have hfalls {b} (hb : Relation.TransGen r a b) :
      Relation.ReflTransGen r b a → key b < key a := by
    induction hb with
    | single hab => exact hnone _ _ .refl hab
    | tail hab hbc ih =>
      intro hca
      exact (hnone _ _ hab.to_reflTransGen hbc hca).trans (ih (hca.head hbc))
  exact lt_irrefl _ (hfalls h .refl)

end Circles

section Pairs

variable {env : Env} {quests : List Quest} {a b q : Quest} {d : InferredDependency}

theorem mem_inferDependencies :
    d ∈ inferDependencies env quests ↔ ∃ a b, [a, b].Sublist quests ∧ infer env a b = some d := by
  induction quests with
  | nil => simp [inferDependencies]
  | cons q quests ih =>
    simp only [inferDependencies, mem_append, mem_filterMap, ih, cons_sublist_cons']
    constructor
    · rintro (⟨b, hb, hd⟩ | ⟨a, b, hab, hd⟩)
      · exact ⟨q, b, .inr ⟨rfl, by simpa using hb⟩, hd⟩
      · exact ⟨a, b, .inl hab, hd⟩
    · rintro ⟨a, b, hab | ⟨rfl, hb⟩, hd⟩
      · exact .inr ⟨a, b, hab, hd⟩
      · exact .inl ⟨b, by simpa using hb, hd⟩

theorem ends_of_infer (h : infer env a b = some d) :
    d.source = a.id ∧ d.target = b.id ∨ d.source = b.id ∧ d.target = a.id := by
  obtain ⟨-, -, rfl⟩ := map_eq_some_iff.1 h
  unfold determineDirection
  split_ifs <;> simp

theorem edge_iff {x y : String} :
    Edge env quests x y ↔ ∃ a b, Needs env quests a b ∧ a.id = x ∧ b.id = y := by
  constructor
  · rintro ⟨d, hd, rfl, rfl⟩
    obtain ⟨a, b, hab, hd⟩ := mem_inferDependencies.1 hd
    obtain ⟨found, hfound, rfl⟩ := map_eq_some_iff.1 hd
    have hsome : (overlap env a b).isSome = true := by rw [hfound]; rfl
    simp only [determineDirection, Bool.and_eq_true]
    split_ifs with hb ha hage
    · exact ⟨b, a, .later hab hsome (.inl ⟨hb.2, hb.1⟩), rfl, rfl⟩
    · exact ⟨a, b, .earlier hab hsome (fun h => hb ⟨h.2, h.1⟩) (.inl ⟨ha.2, ha.1⟩), rfl, rfl⟩
    · exact ⟨b, a, .later hab hsome (.inr ⟨fun h => ha ⟨h.2, h.1⟩, hage⟩), rfl, rfl⟩
    · exact ⟨a, b, .earlier hab hsome (fun h => hb ⟨h.2, h.1⟩) (.inr (by omega)), rfl, rfl⟩
  · rintro ⟨x, y, hneeds, rfl, rfl⟩
    cases hneeds with
    | @later a b hab hsome hwhy =>
      obtain ⟨found, hfound⟩ := isSome_iff_exists.1 hsome
      refine ⟨_, mem_inferDependencies.2 ⟨_, _, hab, by rw [infer, hfound]; rfl⟩, ?_⟩
      simp only [Waits] at hwhy
      simp only [determineDirection]
      split_ifs with hb ha hage <;> simp_all
    | @earlier a b hab hsome hnot hwhy =>
      obtain ⟨found, hfound⟩ := isSome_iff_exists.1 hsome
      refine ⟨_, mem_inferDependencies.2 ⟨_, _, hab, by rw [infer, hfound]; rfl⟩, ?_⟩
      simp only [determineDirection, Bool.and_eq_true]
      split_ifs with hb ha hage
      · exact absurd ⟨hb.2, hb.1⟩ hnot
      · exact ⟨rfl, rfl⟩
      · rcases hwhy with hwaits | hage'
        · exact absurd ⟨hwaits.2, hwaits.1⟩ ha
        · omega
      · exact ⟨rfl, rfl⟩

theorem apart {e : InferredDependency} {x : String} (hd : d.source = x ∨ d.target = x)
    (hsource : e.source ≠ x) (htarget : e.target ≠ x) :
    ¬ (d.source = e.source ∧ d.target = e.target) ∧ ¬ (d.source = e.target ∧ d.target = e.source) := by
  rcases hd with rfl | rfl
  · exact ⟨fun h => hsource h.1.symm, fun h => htarget h.1.symm⟩
  · exact ⟨fun h => htarget h.2.symm, fun h => hsource h.2.symm⟩

theorem pairwise_inferDependencies (h : (quests.map (·.id)).Nodup) :
    (inferDependencies env quests).Pairwise fun d e =>
      ¬ (d.source = e.source ∧ d.target = e.target) ∧ ¬ (d.source = e.target ∧ d.target = e.source) := by
  induction quests with
  | nil => exact .nil
  | cons q quests ih =>
    rw [map_cons, nodup_cons] at h
    have hids {a b : Quest} (hab : [a, b].Sublist quests) :
        a.id ∈ quests.map (·.id) ∧ b.id ∈ quests.map (·.id) :=
      ⟨List.mem_map_of_mem (hab.subset (by simp)), List.mem_map_of_mem (hab.subset (by simp))⟩
    have hne {a : Quest} (ha : a.id ∈ quests.map (·.id)) : a.id ≠ q.id := fun heq => h.1 (heq ▸ ha)
    refine pairwise_append.2 ⟨?_, ih h.2, fun d hd e he => ?_⟩
    · refine pairwise_filterMap.2 ((pairwise_map.1 h.2).imp_of_mem ?_)
      intro a b ha _ hab d hd e he
      have hqa := (hne (List.mem_map_of_mem ha)).symm
      have hend : d.source = a.id ∨ d.target = a.id := by
        rcases ends_of_infer hd with ⟨-, ht⟩ | ⟨hs, -⟩
        · exact .inr ht
        · exact .inl hs
      rcases ends_of_infer he with ⟨hs, ht⟩ | ⟨hs, ht⟩
      · exact apart hend (hs ▸ hqa) (ht ▸ Ne.symm hab)
      · exact apart hend (hs ▸ Ne.symm hab) (ht ▸ hqa)
    · obtain ⟨b, -, hd⟩ := mem_filterMap.1 hd
      obtain ⟨a', b', hab, he⟩ := mem_inferDependencies.1 he
      have hend : d.source = q.id ∨ d.target = q.id := by
        rcases ends_of_infer hd with ⟨hs, -⟩ | ⟨-, ht⟩
        · exact .inl hs
        · exact .inr ht
      rcases ends_of_infer he with ⟨hs, ht⟩ | ⟨hs, ht⟩
      · exact apart hend (hs ▸ hne (hids hab).1) (ht ▸ hne (hids hab).2)
      · exact apart hend (hs ▸ hne (hids hab).2) (ht ▸ hne (hids hab).1)

theorem idxOf_lt (hdup : quests.Nodup) (h : [a, b].Sublist quests) :
    quests.idxOf a < quests.idxOf b := by
  induction quests with
  | nil => cases h
  | cons q quests ih =>
    rw [nodup_cons] at hdup
    rcases cons_sublist_cons'.1 h with h | ⟨rfl, hb⟩
    · have hne {c : Quest} (hc : c ∈ quests) : q ≠ c := fun heq => hdup.1 (heq ▸ hc)
      rw [idxOf_cons_ne _ (hne (h.subset (by simp))), idxOf_cons_ne _ (hne (h.subset (by simp)))]
      exact Nat.succ_lt_succ (ih hdup.2 h)
    · have hne : a ≠ b := fun heq => hdup.1 (heq ▸ by simpa using hb)
      rw [idxOf_cons_self, idxOf_cons_ne _ hne]
      omega

/-! ## Keys -/

def age (quests : List Quest) (q : Quest) : ℤ ×ₗ ℕ := toLex (q.createdAt, quests.idxOf q)

/-- Quests that only create first and those that only test last; between those with words of both
kinds only the order of the list counts. -/
def rank (env : Env) (quests : List Quest) (q : Quest) : ℕ ×ₗ ℤ ×ₗ ℕ :=
  if isCreate env q then
    if isTest env q then toLex (1, toLex (0, quests.idxOf q)) else toLex (0, age quests q)
  else toLex (2, age quests q)

theorem rank_lt (hdup : quests.Nodup) (ha : isCreate env a = true ∨ isTest env a = true)
    (hb : isCreate env b = true ∨ isTest env b = true) (h : Needs env quests a b) :
    rank env quests b < rank env quests a := by
  cases h with
  | later hab _ hwhy =>
    have hlt := idxOf_lt hdup hab
    simp only [Waits] at hwhy
    unfold rank age
    cases hca : isCreate env a <;> cases hta : isTest env a <;> cases hcb : isCreate env b <;>
      cases htb : isTest env b <;> simp_all [Prod.Lex.toLex_lt_toLex] <;> omega
  | earlier hab _ hnot hwhy =>
    simp only [Waits] at hnot hwhy
    unfold rank age
    cases hca : isCreate env a <;> cases hta : isTest env a <;> cases hcb : isCreate env b <;>
      cases htb : isTest env b <;> simp_all [Prod.Lex.toLex_lt_toLex]

theorem waits_of_age (hdup : quests.Nodup) (h : Needs env quests a b)
    (hage : ¬ age quests b < age quests a) : Waits env a b ∧
      (a.createdAt < b.createdAt ∨ a.createdAt = b.createdAt ∧ [a, b].Sublist quests) := by
  simp only [age, Prod.Lex.toLex_lt_toLex, not_or, not_lt] at hage
  cases h with
  | later hab _ hwhy =>
    have hlt := idxOf_lt hdup hab
    have hcreated : a.createdAt < b.createdAt := by omega
    refine ⟨hwhy.resolve_right fun h => ?_, .inl hcreated⟩
    omega
  | earlier hab _ _ hwhy =>
    refine ⟨hwhy.resolve_right fun h => ?_, ?_⟩
    · omega
    · rcases hage.1.lt_or_eq with hlt | heq
      · exact .inl hlt
      · exact .inr ⟨heq, hab⟩

theorem mem_of_needs (h : Needs env quests a b) : a ∈ quests ∧ b ∈ quests := by
  cases h with
  | later hab | earlier hab => exact ⟨hab.subset (by simp), hab.subset (by simp)⟩

theorem circle_iff (h : (quests.map (·.id)).Nodup) :
    (∃ x, Relation.TransGen (Edge env quests) x x) ↔ ∃ a, Relation.TransGen (Needs env quests) a a := by
  have hinj := inj_on_of_nodup_map h
  constructor
  · rintro ⟨x, hx⟩
    have hlift {x y} (hxy : Relation.TransGen (Edge env quests) x y) :
        ∃ a b, Relation.TransGen (Needs env quests) a b ∧ a ∈ quests ∧ b ∈ quests ∧
          a.id = x ∧ b.id = y := by
      induction hxy with
      | single hxy =>
        obtain ⟨a, b, hab, rfl, rfl⟩ := edge_iff.1 hxy
        exact ⟨a, b, .single hab, (mem_of_needs hab).1, (mem_of_needs hab).2, rfl, rfl⟩
      | tail _ hyz ih =>
        obtain ⟨a, b, hab, ha, hb, rfl, rfl⟩ := ih
        obtain ⟨b', c, hbc, hid, rfl⟩ := edge_iff.1 hyz
        obtain rfl := hinj (mem_of_needs hbc).1 hb hid
        exact ⟨a, c, hab.tail hbc, ha, (mem_of_needs hbc).2, rfl, rfl⟩
    obtain ⟨a, b, hab, ha, hb, rfl, hid⟩ := hlift hx
    obtain rfl := hinj hb ha hid
    exact ⟨b, hab⟩
  · rintro ⟨a, ha⟩
    exact ⟨a.id, ha.lift Quest.id fun a b hab => edge_iff.2 ⟨a, b, hab, rfl, rfl⟩⟩

/-! ## Whether the dependencies are orderly -/

/-- They are a directed graph without cycles unless a quest without words ties a knot. -/
theorem inferred_orderly_iff (h : (quests.map (·.id)).Nodup) :
    Orderly env quests ↔ ¬ Tangled env quests := by
  have hdup : quests.Nodup := h.of_map _
  rw [Orderly, and_iff_left (pairwise_inferDependencies h), ← not_exists, circle_iff h, not_iff_not]
  constructor
  · rintro ⟨x, hx⟩
    obtain ⟨c, b, hxc, hcb, hbx, hrank⟩ := exists_rise (rank env quests) hx
    obtain ⟨c', b', hxc', hcb', hbx', hage⟩ := exists_rise (age quests) hx
    obtain ⟨hwaits, hyounger⟩ := waits_of_age hdup hcb' hage
    have hplain : ∃ plain, isCreate env plain = false ∧ isTest env plain = false ∧
        Relation.ReflTransGen (Needs env quests) x plain ∧
        Relation.ReflTransGen (Needs env quests) plain x := by
      by_contra hnone
      push Not at hnone
      have hnamed (q : Quest) (hxq : Relation.ReflTransGen (Needs env quests) x q)
          (hqx : Relation.ReflTransGen (Needs env quests) q x) :
          isCreate env q = true ∨ isTest env q = true := by
        cases hc : isCreate env q <;> cases ht : isTest env q
        · exact absurd hqx (hnone q hc ht hxq)
        · exact .inr rfl
        · exact .inl rfl
        · exact .inl rfl
      exact hrank (rank_lt hdup (hnamed c hxc (hbx.head hcb)) (hnamed b (hxc.tail hcb) hbx) hcb)
    obtain ⟨plain, hcreate, htest, hto, hback⟩ := hplain
    exact ⟨plain, c', b', hcreate, htest, hcb', hwaits, hyounger, hback.trans hxc', hbx'.trans hto⟩
  · rintro ⟨plain, a, b, -, -, hab, -, -, hto, hback⟩
    exact ⟨a, .trans_left (.single hab) (hback.trans hto)⟩

end Pairs

/-! ## Three quests in a circle -/

def asciiEnv : Env where
  isAlphanumeric := Char.isAlphanum
  isUppercase := Char.isUpper
  isLowercase := Char.isLower
  toLowercase := (·.map Char.toLower)
  reaches _ := true

/-- A test, a quest without words and a creation, in the order of their age, about one file. -/
def sampleQuests : List Quest :=
  [⟨"q1", "Test a.rs".toList, [], 1⟩, ⟨"q2", "Refactor a.rs".toList, [], 2⟩,
    ⟨"q3", "Create a.rs".toList, [], 3⟩]

theorem not_orderly_sample : ¬ Orderly asciiEnv sampleQuests := by
  have hedges : (inferDependencies asciiEnv sampleQuests).map (fun d => (d.source, d.target)) =
      [("q2", "q1"), ("q1", "q3"), ("q3", "q2")] := by
    decide +kernel
  have hedge {x y : String} (hxy : (x, y) ∈ [("q2", "q1"), ("q1", "q3"), ("q3", "q2")]) :
      Edge asciiEnv sampleQuests x y := by
    rw [← hedges] at hxy
    obtain ⟨d, hd, heq⟩ := List.mem_map.1 hxy
    exact ⟨d, hd, congrArg Prod.fst heq, congrArg Prod.snd heq⟩
  have hthree : Edge asciiEnv sampleQuests "q1" "q3" := hedge (by simp)
  have htwo : Edge asciiEnv sampleQuests "q3" "q2" := hedge (by simp)
  exact fun h => h.1 "q1" (.tail (.tail (.single hthree) htwo) (hedge (by simp)))

theorem dependencies_cycle : ¬ ∀ (env : Env) (quests : List Quest),
    (quests.map (·.id)).Nodup → Orderly env quests :=
  fun h => not_orderly_sample (h asciiEnv sampleQuests (by decide))

theorem sample_tangled : Tangled asciiEnv sampleQuests := by
  by_contra h
  exact not_orderly_sample ((inferred_orderly_iff (by decide)).2 h)

end Aeqi.Quests.Inference

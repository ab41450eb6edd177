import DesignCoupling.Design.History
import DesignCoupling.Proofs.Design.Consistency
import Mathlib.Data.List.Permutation
import Std.Data.TreeMap.Lemmas

/-!
# Growth of designs

A call leaves a design as it is, or appends an entity, or appends a link; a new containment also
names the container. What each of the three does to names, links and neighbours is said here once.
All of them keep a design consistent, so every history builds a consistent one.
-/

namespace DesignCoupling.Design

/-- A design with one more entity, at the top. -/
def withEntity (d : Design) (name : String) (kind : EntityKind) : Design :=
  { d with
    entities := d.entities.push ⟨name, kind, none⟩
    index := d.index.insert name d.entities.size }

/-- A design in which the entity with number `c` has been put into the one with number `p`. -/
def withContainment (d : Design) (p c : Nat) (parent : String) : Design :=
  (d.setParent c parent).link .contains p c

variable {d : Design}

theorem addEntity_snd (name : String) (kind : EntityKind) :
    (d.addEntity name kind).2 = if d.indexOf? name = none then d.withEntity name kind else d := by
  unfold addEntity
  cases h : d.indexOf? name <;> simp [withEntity]

theorem addContainment_eq_ok_iff {parent child : String} {d' : Design} :
    d.addContainment parent child = .ok d' ↔
      parent ≠ child ∧ ∃ p c, d.indexOf? parent = some p ∧ d.indexOf? child = some c ∧
        (d.entities[c]?.bind Entity.parent = some parent ∧ d' = d ∨
          d.entities[c]?.bind Entity.parent = none ∧ d' = d.withContainment p c parent) := by
  unfold addContainment
  by_cases hne : parent = child
  · simp [hne]
  · rw [if_neg hne]
    cases d.indexOf? parent with
    | none => simp
    | some p =>
        cases d.indexOf? child with
        | none => simp
        | some c =>
            simp only [ne_eq, hne, not_false_eq_true, true_and, Option.some.injEq,
              exists_and_left, exists_eq_left']
            cases d.entities[c]?.bind Entity.parent with
            | none => simp [withContainment, eq_comm]
            | some current =>
                by_cases hsame : current = parent
                · simp [hsame, eq_comm]
                · simp [hsame]

theorem addUsage_eq_some_iff {source target : String} {d' : Design} :
    d.addUsage source target = some d' ↔
      ∃ s t, d.indexOf? source = some s ∧ d.indexOf? target = some t ∧ d' = d.link .uses s t := by
  unfold addUsage
  cases d.indexOf? source <;> cases d.indexOf? target <;> simp [eq_comm]

/-- The answers that a call can get, each with the design after it: what is known, held or refused
leaves the design alone, and anything else grows it in one of three ways. -/
inductive Answers (d : Design) : Call → Reply → Design → Prop
  | known {name : String} {kind : EntityKind} {i : Nat} (hname : d.indexOf? name = some i) :
      Answers d (.addEntity name kind) (.number i) d
  | declared {name : String} {kind : EntityKind} (hname : d.indexOf? name = none) :
      Answers d (.addEntity name kind) (.number d.entities.size) (d.withEntity name kind)
  | refused {parent child : String} {refusal : Refusal}
      (hrefused : d.addContainment parent child = .error refusal) :
      Answers d (.addContainment parent child) (.refused refusal) d
  | held {parent child : String} {c : Nat} (hc : d.indexOf? child = some c)
      (hparent : d.entities[c]?.bind Entity.parent = some parent) :
      Answers d (.addContainment parent child) .contained d
  | placed {parent child : String} {p c : Nat} (hne : parent ≠ child)
      (hp : d.indexOf? parent = some p) (hc : d.indexOf? child = some c)
      (hfree : d.entities[c]?.bind Entity.parent = none) :
      Answers d (.addContainment parent child) .contained (d.withContainment p c parent)
  | ignored {source target : String} (hignored : d.addUsage source target = none) :
      Answers d (.addUsage source target) (.linked false) d
  | linked {source target : String} {s t : Nat} (hs : d.indexOf? source = some s)
      (ht : d.indexOf? target = some t) :
      Answers d (.addUsage source target) (.linked true) (d.link .uses s t)

theorem perform_answers (d : Design) (call : Call) :
    Answers d call (d.perform call).1 (d.perform call).2 := by
  cases call with
  | addEntity name kind =>
      simp only [perform, addEntity]
      cases hname : d.indexOf? name with
      | some i => exact .known hname
      | none => exact .declared hname
  | addContainment parent child =>
      simp only [perform]
      cases h : d.addContainment parent child with
      | error refusal => exact .refused h
      | ok d' =>
          obtain ⟨hne, p, c, hp, hc, ⟨hparent, rfl⟩ | ⟨hfree, rfl⟩⟩ :=
            addContainment_eq_ok_iff.1 h
          · exact .held hc hparent
          · exact .placed hne hp hc hfree
  | addUsage source target =>
      simp only [perform]
      cases h : d.addUsage source target with
      | none => exact .ignored h
      | some d' =>
          obtain ⟨s, t, hs, ht, rfl⟩ := addUsage_eq_some_iff.1 h
          exact .linked hs ht

@[simp] theorem indexOf?_withEntity (name n : String) (kind : EntityKind) :
    (d.withEntity name kind).indexOf? n =
      if name = n then some d.entities.size else d.indexOf? n := by
  simp [indexOf?, withEntity, Std.TreeMap.getElem?_insert]

@[simp] theorem getElem?_entities_withEntity (name : String) (kind : EntityKind) (i : Nat) :
    (d.withEntity name kind).entities[i]? =
      if i = d.entities.size then some ⟨name, kind, none⟩ else d.entities[i]? :=
  Array.getElem?_push

@[simp] theorem links_withEntity (name : String) (kind : EntityKind) :
    (d.withEntity name kind).links = d.links := rfl

@[simp] theorem indexOf?_withContainment (p c : Nat) (parent n : String) :
    (d.withContainment p c parent).indexOf? n = d.indexOf? n := rfl

@[simp] theorem getElem?_entities_withContainment (p c i : Nat) (parent : String) :
    (d.withContainment p c parent).entities[i]? =
      if c = i then d.entities[i]?.map fun e => { e with parent := some parent }
      else d.entities[i]? :=
  Array.getElem?_modify

@[simp] theorem links_withContainment (p c : Nat) (parent : String) :
    (d.withContainment p c parent).links = d.links.push ⟨.contains, p, c⟩ := rfl

@[simp] theorem indexOf?_link (kind : LinkKind) (s t : Nat) (n : String) :
    (d.link kind s t).indexOf? n = d.indexOf? n := rfl

@[simp] theorem entities_link (kind : LinkKind) (s t : Nat) :
    (d.link kind s t).entities = d.entities := rfl

@[simp] theorem links_link (kind : LinkKind) (s t : Nat) :
    (d.link kind s t).links = d.links.push ⟨kind, s, t⟩ := rfl

@[simp] theorem usageCount_withEntity (name : String) (kind : EntityKind) :
    (d.withEntity name kind).usageCount = d.usageCount := rfl

@[simp] theorem usageCount_withContainment (p c : Nat) (parent : String) :
    (d.withContainment p c parent).usageCount = d.usageCount := by
  unfold usageCount
  rw [links_withContainment]
  exact Array.countP_push_of_neg (by simp)

@[simp] theorem usageCount_link_uses (s t : Nat) :
    (d.link .uses s t).usageCount = d.usageCount + 1 := by
  unfold usageCount
  rw [links_link]
  exact Array.countP_push_of_pos (by simp)

/-- The name of the entity with number `i`. -/
def nameAt (d : Design) (i : Nat) : Option String := d.entities[i]?.map Entity.name

@[simp] theorem nameAt_withEntity (name : String) (kind : EntityKind) (i : Nat) :
    (d.withEntity name kind).nameAt i = if i = d.entities.size then some name else d.nameAt i := by
  unfold nameAt
  rw [getElem?_entities_withEntity]
  split <;> rfl

@[simp] theorem nameAt_withContainment (p c i : Nat) (parent : String) :
    (d.withContainment p c parent).nameAt i = d.nameAt i := by
  unfold nameAt
  rw [getElem?_entities_withContainment]
  split
  · rw [Option.map_map]; rfl
  · rfl

/-- The names at the far ends of the links of a kind that have a name at their near end. -/
def namesAlong (d : Design) (near far : Link → Nat) (kind : LinkKind) (name : String) :
    List String :=
  ((d.indexOf? name).map fun i =>
    d.links.toList.filterMap fun l =>
      if l.kind = kind ∧ near l = i then d.nameAt (far l) else none).getD []

theorem outgoing_eq_namesAlong (kind : LinkKind) (name : String) :
    d.outgoing kind name = d.namesAlong Link.source Link.target kind name := by
  unfold outgoing neighbours namesAlong
  cases d.indexOf? name with
  | none => rfl
  | some i =>
      simp only [Option.map_some, Option.getD_some, targets, List.map_filterMap]
      apply List.filterMap_congr
      intro l _
      split <;> rfl

theorem incoming_eq_namesAlong (kind : LinkKind) (name : String) :
    d.incoming kind name = d.namesAlong Link.target Link.source kind name := by
  unfold incoming neighbours namesAlong
  cases d.indexOf? name with
  | none => rfl
  | some i =>
      simp only [Option.map_some, Option.getD_some, sources, List.map_filterMap]
      apply List.filterMap_congr
      intro l _
      split <;> rfl

theorem map_filter_concat {α : Type} (p : α → Bool) (f : α → String) (xs : List α) (x : α) :
    ((xs ++ [x]).filter p).map f = (xs.filter p).map f ++ if p x then [f x] else [] := by
  rw [List.filter_append, List.map_append]
  cases h : p x with
  | false => simp [h]
  | true => simp [h]

namespace Consistent

theorem nameAt_of_indexOf? (hd : d.Consistent) {name : String} {i : Nat}
    (h : d.indexOf? name = some i) : d.nameAt i = some name := by
  obtain ⟨e, he, rfl⟩ := hd.index.1 h
  simp [nameAt, he]

theorem indexOf?_inj (hd : d.Consistent) {a b : String} {i : Nat} (ha : d.indexOf? a = some i)
    (hb : d.indexOf? b = some i) : a = b :=
  Option.some.inj ((hd.nameAt_of_indexOf? ha).symm.trans (hd.nameAt_of_indexOf? hb))

private theorem namesAlong_withEntity {near far : Link → Nat}
    (hnear : ∀ l ∈ d.links, near l < d.entities.size)
    (hfar : ∀ l ∈ d.links, far l < d.entities.size) {name : String}
    (hname : d.indexOf? name = none) (kind : EntityKind) (link : LinkKind) (n : String) :
    (d.withEntity name kind).namesAlong near far link n = d.namesAlong near far link n := by
  unfold namesAlong
  rw [indexOf?_withEntity, links_withEntity]
  by_cases hn : name = n
  · subst hn
    simp only [if_true, Option.map_some, Option.getD_some, hname, Option.map_none,
      Option.getD_none]
    -- no link can be at the number of an entity that is still to come
    apply List.filterMap_eq_nil_iff.2
    intro l hl
    apply if_neg
    intro h
    exact absurd h.2 (Nat.ne_of_lt (hnear l (Array.mem_toList_iff.1 hl)))
  · rw [if_neg hn]
    congr 2
    funext i
    apply List.filterMap_congr
    intro l hl
    rw [nameAt_withEntity, if_neg (Nat.ne_of_lt (hfar l (Array.mem_toList_iff.1 hl)))]

/-- A link more adds its far name at its near name. -/
private theorem namesAlong_push (hd : d.Consistent) (near far : Link → Nat) (l : Link)
    (d' : Design) (hindex : ∀ n, d'.indexOf? n = d.indexOf? n)
    (hnames : ∀ i, d'.nameAt i = d.nameAt i) (hlinks : d'.links = d.links.push l) {a b : String}
    (ha : d.indexOf? a = some (near l)) (hb : d.indexOf? b = some (far l)) (kind : LinkKind)
    (n : String) :
    d'.namesAlong near far kind n =
      d.namesAlong near far kind n ++ if l.kind = kind ∧ a = n then [b] else [] := by
  unfold namesAlong
  simp only [hindex, hnames, hlinks]
  cases hn : d.indexOf? n with
  | none =>
      have hne : ¬ a = n := by
        intro heq
        subst heq
        simp [ha] at hn
      simp [hne]
  | some i =>
      have hnear : near l = i ↔ a = n := by
        constructor
        · intro heq
          subst heq
          exact hd.indexOf?_inj ha hn
        · intro heq
          subst heq
          exact Option.some.inj (ha.symm.trans hn)
      simp only [Option.map_some, Option.getD_some, Array.toList_push, List.filterMap_append,
        List.filterMap_cons, List.filterMap_nil, hnear, hd.nameAt_of_indexOf? hb]
      by_cases h : l.kind = kind ∧ a = n <;> simp [h]

theorem outgoing_withEntity (hd : d.Consistent) {name : String} (hname : d.indexOf? name = none)
    (kind : EntityKind) (link : LinkKind) (n : String) :
    (d.withEntity name kind).outgoing link n = d.outgoing link n := by
  rw [outgoing_eq_namesAlong, outgoing_eq_namesAlong]
  exact namesAlong_withEntity (fun l hl => (hd.bounds l hl).1) (fun l hl => (hd.bounds l hl).2)
    hname kind link n

theorem incoming_withEntity (hd : d.Consistent) {name : String} (hname : d.indexOf? name = none)
    (kind : EntityKind) (link : LinkKind) (n : String) :
    (d.withEntity name kind).incoming link n = d.incoming link n := by
  rw [incoming_eq_namesAlong, incoming_eq_namesAlong]
  exact namesAlong_withEntity (fun l hl => (hd.bounds l hl).2) (fun l hl => (hd.bounds l hl).1)
    hname kind link n

section Links

variable {a b : String} {s t : Nat}

theorem outgoing_withContainment (hd : d.Consistent) (ha : d.indexOf? a = some s)
    (hb : d.indexOf? b = some t) (link : LinkKind) (n : String) :
    (d.withContainment s t a).outgoing link n =
      d.outgoing link n ++ if .contains = link ∧ a = n then [b] else [] := by
  rw [outgoing_eq_namesAlong, outgoing_eq_namesAlong]
  exact hd.namesAlong_push Link.source Link.target ⟨.contains, s, t⟩ (d.withContainment s t a)
    (fun _ => rfl) (fun i => nameAt_withContainment s t i a) rfl ha hb link n

theorem incoming_withContainment (hd : d.Consistent) (ha : d.indexOf? a = some s)
    (hb : d.indexOf? b = some t) (link : LinkKind) (n : String) :
    (d.withContainment s t a).incoming link n =
      d.incoming link n ++ if .contains = link ∧ b = n then [a] else [] := by
  rw [incoming_eq_namesAlong, incoming_eq_namesAlong]
  exact hd.namesAlong_push Link.target Link.source ⟨.contains, s, t⟩ (d.withContainment s t a)
    (fun _ => rfl) (fun i => nameAt_withContainment s t i a) rfl hb ha link n

theorem outgoing_link (hd : d.Consistent) (ha : d.indexOf? a = some s)
    (hb : d.indexOf? b = some t) (kind link : LinkKind) (n : String) :
    (d.link kind s t).outgoing link n =
      d.outgoing link n ++ if kind = link ∧ a = n then [b] else [] := by
  rw [outgoing_eq_namesAlong, outgoing_eq_namesAlong]
  exact hd.namesAlong_push Link.source Link.target ⟨kind, s, t⟩ (d.link kind s t) (fun _ => rfl)
    (fun _ => rfl) rfl ha hb link n

theorem incoming_link (hd : d.Consistent) (ha : d.indexOf? a = some s)
    (hb : d.indexOf? b = some t) (kind link : LinkKind) (n : String) :
    (d.link kind s t).incoming link n =
      d.incoming link n ++ if kind = link ∧ b = n then [a] else [] := by
  rw [incoming_eq_namesAlong, incoming_eq_namesAlong]
  exact hd.namesAlong_push Link.target Link.source ⟨kind, s, t⟩ (d.link kind s t) (fun _ => rfl)
    (fun _ => rfl) rfl hb ha link n

end Links

theorem empty : Design.empty.Consistent where
  index := by simp [indexOf?, Design.empty]
  bounds := by simp [Design.empty]
  containers := by simp [Design.empty]
  separate := by simp [Design.empty]

theorem lt_size (hd : d.Consistent) {name : String} {i : Nat} (h : d.indexOf? name = some i) :
    i < d.entities.size := by
  obtain ⟨e, he, _⟩ := hd.index.1 h
  exact (Array.getElem?_eq_some_iff.1 he).1

theorem withEntity (hd : d.Consistent) {name : String} (hname : d.indexOf? name = none)
    (kind : EntityKind) : (d.withEntity name kind).Consistent where
  index := by
    intro n i
    rw [indexOf?_withEntity, getElem?_entities_withEntity]
    by_cases hi : i = d.entities.size
    · subst hi
      by_cases hn : name = n
      · simp [hn]
      · have hold : d.indexOf? n ≠ some d.entities.size := fun h => absurd (hd.lt_size h) (by omega)
        simp [hn, hold]
    · by_cases hn : name = n
      · subst hn
        have hfree : ¬ ∃ e, d.entities[i]? = some e ∧ e.name = name :=
          fun h => by simp [hd.index.2 h] at hname
        simp [hi, hfree, Ne.symm hi]
      · simp only [if_neg hn, if_neg hi, hd.index]
  bounds := by
    intro l hl
    obtain ⟨hsource, htarget⟩ := hd.bounds l hl
    have hsize : (d.withEntity name kind).entities.size = d.entities.size + 1 := Array.size_push ..
    omega
  containers := by
    intro e he
    rw [hd.incoming_withEntity hname]
    rcases Array.mem_push.1 he with he | rfl
    · exact hd.containers e he
    · simp [incoming, neighbours, hname]
  separate := hd.separate

theorem withContainment (hd : d.Consistent) {parent child : String} {p c : Nat}
    (hp : d.indexOf? parent = some p) (hc : d.indexOf? child = some c) (hne : parent ≠ child)
    (hfree : d.entities[c]?.bind Entity.parent = none) :
    (d.withContainment p c parent).Consistent where
  index := by
    intro n i
    rw [indexOf?_withContainment, getElem?_entities_withContainment, hd.index]
    split
    · simp only [Option.map_eq_some_iff, exists_exists_and_eq_and]
    · rfl
  bounds := by
    intro l hl
    have hsize : (d.withContainment p c parent).entities.size = d.entities.size :=
      Array.size_modify ..
    rw [hsize]
    rcases Array.mem_push.1 hl with hl | rfl
    · exact hd.bounds l hl
    · exact ⟨hd.lt_size hp, hd.lt_size hc⟩
  containers := by
    intro e he
    obtain ⟨i, hi⟩ := Array.mem_iff_getElem?.1 he
    rw [getElem?_entities_withContainment] at hi
    rw [hd.incoming_withContainment hp hc]
    split at hi
    · next hci =>
        -- the entity that has been put into the container stood at the top before
        subst hci
        obtain ⟨r, hr, rfl⟩ := Option.map_eq_some_iff.1 hi
        obtain ⟨r', hr', rfl⟩ := hd.index.1 hc
        obtain rfl := Option.some.inj (hr.symm.trans hr')
        have htop : r.parent = none := by simpa [hr] using hfree
        simp [hd.containers r (Array.mem_of_getElem? hr), htop]
    · next hci =>
        have hother : child ≠ e.name := by
          intro heq
          subst heq
          exact hci (Option.some.inj (hc.symm.trans (hd.indexOf?_getElem? hi)))
        simp [hd.containers e (Array.mem_of_getElem? hi), hother]
  separate := by
    intro l hl hkind
    rcases Array.mem_push.1 hl with hl | rfl
    · exact hd.separate l hl hkind
    · intro (hloop : p = c)
      exact hne (hd.indexOf?_inj hp (hloop ▸ hc))

theorem link_uses (hd : d.Consistent) {source target : String} {s t : Nat}
    (hs : d.indexOf? source = some s) (ht : d.indexOf? target = some t) :
    (d.link .uses s t).Consistent where
  index := hd.index
  bounds := by
    intro l hl
    rcases Array.mem_push.1 hl with hl | rfl
    · exact hd.bounds l hl
    · exact ⟨hd.lt_size hs, hd.lt_size ht⟩
  containers := by
    intro e he
    rw [hd.incoming_link hs ht]
    simpa using hd.containers e he
  separate := by
    intro l hl hkind
    rcases Array.mem_push.1 hl with hl | rfl
    · exact hd.separate l hl hkind
    · simp at hkind

theorem of_answers (hd : d.Consistent) {call : Call} {reply : Reply} {d' : Design}
    (h : Answers d call reply d') : d'.Consistent := by
  cases h with
  | known => exact hd
  | declared hname => exact hd.withEntity hname _
  | refused => exact hd
  | held => exact hd
  | placed hne hp hc hfree => exact hd.withContainment hp hc hne hfree
  | ignored => exact hd
  | linked hs ht => exact hd.link_uses hs ht

theorem perform (hd : d.Consistent) (call : Call) : (d.perform call).2.Consistent :=
  hd.of_answers (perform_answers d call)

theorem performAll (hd : d.Consistent) (calls : List Call) : (d.performAll calls).Consistent := by
  induction calls generalizing d with
  | nil => exact hd
  | cons call calls ih => exact ih (hd.perform call)

/-- Every history builds a consistent design. -/
theorem ofCalls (calls : List Call) : (Design.ofCalls calls).Consistent :=
  Consistent.empty.performAll calls

end Consistent

end DesignCoupling.Design

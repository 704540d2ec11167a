import Spectuel.Engine.LinkedCodec
import Spectuel.Families.Basic

/-!
# Linked orders do not survive a snapshot

A group of linked orders would survive when `to_dict` of a member returns a dictionary with a JSON form
and `from_dict` of that form builds the group again (`SurvivesSnapshot`).  No group does, whatever was filled
and whichever of its orders are active (`linked_not_survives`): the order dictionary of each member
holds the order objects it is linked to.

That is not all.  `to_dict` of an OCO or OTO order returns a dictionary that refers to itself, since the
dictionary of the caller arrives where it was not meant to (`oco_cycle`, `oto_parent_cycle`,
`oto_child_cycle`).  `to_dict` of an OTOCO order does not return (`otoco_diverges`), since the legs call
each other and none of them is given a `counterparty`.
-/

set_option autoImplicit false

namespace Spectuel

/-- The orders `ren o` have the order dictionaries, the links and the active flags of the orders `o`
of a family.  Orders of the class `OCOOrder` have no such flag. -/
def SameGroup (f : Family) (state : Order → OrderState) (ren : Order → Order)
    (state' : Order → OrderState) : Prop :=
  ∀ o ∈ f.members, (ren o).dict (state' (ren o)) = o.dict (state o) ∧
    (∀ l, (state' (ren o)).link l = ((state o).link l).map ren) ∧
    (o.strategyType ≠ .oco → (state' (ren o)).active = (state o).active)

/-- A snapshot of a member of a family is a JSON value, from which the family is built again. -/
def SurvivesSnapshot (f : Family) (state : Order → OrderState) (o : Order) (h : Dicts)
    (d : OrderObjects) : Prop :=
  ∃ fuel s h' json ren, LinkedOrder.toDict state fuel o none h = some (s, h') ∧
    h'.HasJson s json ∧ (LinkedOrder.fromDict json d).1 = some (ren o) ∧
    SameGroup f state ren (LinkedOrder.fromDict json d).2.state

/-! ## What `to_dict` leaves unchanged -/

/-- The dictionaries of before are there, with the same order objects in them. -/
def Dicts.Keeps (h h' : Dicts) : Prop :=
  h.size ≤ h'.size ∧ ∀ r < h.size, (h'.dict r).objects = (h.dict r).objects

namespace Dicts

variable {h h' h'' : Dicts} {s : Nat} {key : Link} {param : Option Nat} {linked : Option Order}
  {call : Order → Nat → Dicts → Option (Nat × Dicts)} {self : OrderState}

theorem Keeps.refl (h : Dicts) : h.Keeps h := ⟨le_rfl, fun _ _ ↦ rfl⟩

theorem Keeps.trans (h₁ : h.Keeps h') (h₂ : h'.Keeps h'') : h.Keeps h'' :=
  ⟨h₁.1.trans h₂.1, fun r hr ↦ (h₂.2 r (hr.trans_le h₁.1)).trans (h₁.2 r hr)⟩

theorem keeps_setEntry (h : Dicts) (s : Nat) (key : Link) (r : Option Nat) :
    h.Keeps (h.setEntry s key r) := by
  refine ⟨le_rfl, fun r' _ ↦ ?_⟩
  by_cases hr : r' = s <;> simp [setEntry, hr]

theorem keeps_setTriggered (h : Dicts) (s : Nat) (active : Bool) :
    h.Keeps (h.setTriggered s active) := by
  refine ⟨le_rfl, fun r' _ ↦ ?_⟩
  by_cases hr : r' = s <;> simp [setTriggered, hr]

theorem dict_make_self (h : Dicts) (o : Order) (s : OrderState) : (h.make o s).dict h.size =
    { type := o.strategyType, orderDict := o.dict s, objects := s.link } := Function.update_self ..

theorem keeps_make (h : Dicts) (o : Order) (s : OrderState) : h.Keeps (h.make o s) := by
  refine ⟨Nat.le_succ _, fun r hr ↦ ?_⟩
  exact congrArg SnapshotDict.objects (Function.update_of_ne hr.ne _ _)

/-- The calls that `to_dict` makes keep what is there. -/
abbrev CallKeeps (call : Order → Nat → Dicts → Option (Nat × Dicts)) : Prop :=
  ∀ o r h s h', call o r h = some (s, h') → h.Keeps h'

theorem keeps_putLink (hcall : CallKeeps call) (hput : h.putLink call s key param linked = some h') :
    h.Keeps h' := by
  unfold putLink at hput
  split at hput
  · obtain rfl := Option.some_inj.1 hput
    exact keeps_setEntry ..
  · obtain rfl := Option.some_inj.1 hput
    exact keeps_setEntry ..
  · split at hput
    · cases hput
    · rename_i hc
      obtain rfl := Option.some_inj.1 hput
      exact (hcall _ _ _ _ _ hc).trans (keeps_setEntry ..)

theorem keeps_oto (hcall : CallKeeps call) {parent child : Option Nat}
    (ht : OTOOrder.toDict call self s parent child h = some h') : h.Keeps h' := by
  simp only [OTOOrder.toDict, Option.bind_eq_bind, Option.bind_eq_some_iff, Option.pure_def,
    Option.some.injEq] at ht
  obtain ⟨h₁, ht₁, h₂, ht₂, rfl⟩ := ht
  exact ((keeps_putLink hcall ht₁).trans (keeps_putLink hcall ht₂)).trans (keeps_setTriggered ..)

theorem keeps_otoco (hcall : CallKeeps call) {parent childA childB counterparty : Option Nat}
    (ht : OTOCOOrder.toDict call self s parent childA childB counterparty h = some h') :
    h.Keeps h' := by
  simp only [OTOCOOrder.toDict, Option.bind_eq_bind, Option.bind_eq_some_iff, Option.pure_def,
    Option.some.injEq] at ht
  obtain ⟨h₁, ht₁, h₂, ht₂, h₃, ht₃, h₄, ht₄, rfl⟩ := ht
  have h₁₂ := (keeps_putLink hcall ht₁).trans (keeps_putLink hcall ht₂)
  have h₃₄ := (keeps_putLink hcall ht₃).trans (keeps_putLink hcall ht₄)
  exact (h₁₂.trans h₃₄).trans (keeps_setTriggered ..)

end Dicts

section

variable {state : Order → OrderState} {f : Family} {o p a b k : Order} {fuel s : Nat}
  {param : Option Nat} {h h' : Dicts}

open Dicts

/-- **`to_dict`** returns a dictionary of its own, and keeps it and all others. -/
theorem keeps_toDict (ht : LinkedOrder.toDict state fuel o param h = some (s, h')) :
    s = h.size ∧ (h.make o (state o)).Keeps h' := by
  induction fuel generalizing o param h s h' with
  | zero => cases ht
  | succ fuel ih =>
    have hcall : CallKeeps fun c r ↦ LinkedOrder.toDict state fuel c (some r) := by
      intro c r h₁ s₁ h₂ hc
      exact (keeps_make ..).trans (ih hc).2
    rw [LinkedOrder.toDict] at ht
    split at ht
    · split at ht
      · cases ht
      · obtain ⟨rfl, rfl⟩ := Prod.mk.inj (Option.some_inj.1 ht)
        exact ⟨rfl, .refl _⟩
    · obtain ⟨h₁, hput, heq⟩ := Option.map_eq_some_iff.1 ht
      obtain ⟨rfl, rfl⟩ := Prod.mk.inj heq
      exact ⟨rfl, keeps_putLink hcall hput⟩
    · obtain ⟨h₁, hput, heq⟩ := Option.map_eq_some_iff.1 ht
      obtain ⟨rfl, rfl⟩ := Prod.mk.inj heq
      exact ⟨rfl, keeps_oto hcall hput⟩
    · obtain ⟨h₁, hput, heq⟩ := Option.map_eq_some_iff.1 ht
      obtain ⟨rfl, rfl⟩ := Prod.mk.inj heq
      exact ⟨rfl, keeps_otoco hcall hput⟩

/-- The order dictionary in a snapshot holds the order objects that the order is linked to. -/
theorem objects_toDict (ht : LinkedOrder.toDict state fuel o param h = some (s, h')) :
    (h'.dict s).objects = (state o).link := by
  obtain ⟨rfl, hkeeps⟩ := keeps_toDict ht
  rw [hkeeps.2 h.size (Nat.lt_succ_self _), dict_make_self]

/-- With an order object in it, a snapshot has no JSON form. -/
theorem not_hasJson_toDict (ht : LinkedOrder.toDict state fuel o param h = some (s, h')) {l : Link}
    (hl : (state o).link l ≠ none) (json : OrderJson) : ¬ h'.HasJson s json := by
  intro hjson
  refine hjson.label_ne_none (if_neg ?_)
  rw [objects_toDict ht]
  rintro ⟨h₁, h₂, h₃, h₄, h₅⟩
  cases l
  · exact hl h₁
  · exact hl h₂
  · exact hl h₃
  · exact hl h₄
  · exact hl h₅

/-- Each member of a group is linked to another one. -/
theorem Family.Linked.link_ne_none (hf : f.Linked state) (hsingle : ∀ o, f ≠ .single o)
    (ho : o ∈ f.members) : ∃ l, (state o).link l ≠ none := by
  cases f with
  | single o => exact absurd rfl (hsingle o)
  | oco a b =>
    obtain ⟨-, -, ha, hb⟩ := hf
    refine ⟨.counterparty, ?_⟩
    rw [OrderState.link]
    simp only [members, List.mem_cons, List.not_mem_nil, or_false] at ho
    obtain rfl | rfl := ho
    · simp [ha]
    · simp [hb]
  | oto p k =>
    obtain ⟨-, -, hp, -, hk⟩ := hf
    simp only [members, List.mem_cons, List.not_mem_nil, or_false] at ho
    obtain rfl | rfl := ho
    · exact ⟨.child, by simp [OrderState.link, hp]⟩
    · exact ⟨.parent, by simp [OrderState.link, hk]⟩
  | otoco p a b =>
    obtain ⟨-, -, -, hp, ha, hb⟩ := hf
    simp only [members, List.mem_cons, List.not_mem_nil, or_false] at ho
    obtain rfl | rfl | rfl := ho
    · exact ⟨.childA, by simp [OrderState.link, hp.1]⟩
    · exact ⟨.parent, by simp [OrderState.link, ha.2.1]⟩
    · exact ⟨.parent, by simp [OrderState.link, hb.2.1]⟩

end

/-- **No group of linked orders survives a snapshot**, in any state of its orders and for any of its
members. -/
theorem linked_not_survives {f : Family} {state : Order → OrderState} (hf : f.Linked state)
    (hsingle : ∀ o, f ≠ .single o) {o : Order} (ho : o ∈ f.members) (h : Dicts) (d : OrderObjects) :
    ¬ SurvivesSnapshot f state o h d := by
  obtain ⟨l, hl⟩ := hf.link_ne_none hsingle ho
  rintro ⟨fuel, s, h', json, ren, ht, hjson, -⟩
  exact not_hasJson_toDict ht hl json hjson

/-! ### One group of each kind -/

/-- A limit order for one unit. -/
def snapshotOrder (cls : StrategyType) (id : Uuid) (side : Side) (price : ℚ) : Order where
  toOrderMeta := .limit id 1 side 1 price
  addr := id
  strategyType := cls

/-- An OCO pair as `handle_new` builds it. -/
def ocoPair : Family := .oco (snapshotOrder .oco 0 .bid 90) (snapshotOrder .oco 1 .ask 110)

/-- The links of the pair. -/
def ocoPairState (o : Order) : OrderState where
  counterparty := if o.addr = 0 then some (snapshotOrder .oco 1 .ask 110)
    else some (snapshotOrder .oco 0 .bid 90)

/-- No dictionaries yet. -/
def noDicts : Dicts where
  dict _ :=
    { type := .single
      orderDict := (snapshotOrder .single 0 .bid 90).dict {}
      objects := fun _ ↦ none }

/-- **A pair that was just placed does not survive a snapshot.** -/
theorem ocoPair_not_survives :
    ¬ SurvivesSnapshot ocoPair ocoPairState (snapshotOrder .oco 0 .bid 90) noDicts {} := by
  have hpeer : (ocoPairState (snapshotOrder .oco 0 .bid 90)).link .counterparty ≠ none :=
    Option.some_ne_none _
  rintro ⟨fuel, s, h', json, ren, ht, hjson, -⟩
  exact not_hasJson_toDict ht hpeer json hjson

/-- An OTO order with its child, of which the parent was filled. -/
def otoGroup : Family := .oto (snapshotOrder .oto 0 .bid 90) (snapshotOrder .oto 1 .ask 110)

/-- The links of the group. -/
def otoGroupState (o : Order) : OrderState where
  executedQuantity := if o.addr = 0 then 1 else 0
  parent := if o.addr = 0 then none else some (snapshotOrder .oto 0 .bid 90)
  child := if o.addr = 0 then some (snapshotOrder .oto 1 .ask 110) else none

theorem linked_not_survives_otoGroup :
    ¬ SurvivesSnapshot otoGroup otoGroupState (snapshotOrder .oto 1 .ask 110) noDicts {} := by
  have hlinked : otoGroup.Linked otoGroupState := ⟨rfl, rfl, rfl, rfl, rfl⟩
  have hkind : ∀ o, otoGroup ≠ .single o := by
    intro o h
    cases h
  exact linked_not_survives hlinked hkind (List.mem_cons_of_mem _ List.mem_cons_self) noDicts {}

/-! ## Cycles -/

/-- A dictionary refers to another one. -/
abbrev Dicts.RefersTo (h : Dicts) : Nat → Nat → Prop := LabelledTree.RefersTo fun s ↦ (h.dict s).entry

/-- `to_dict` returns a dictionary that can be reached from itself. -/
def ReturnsCycle (state : Order → OrderState) (o : Order) (h : Dicts) : Prop :=
  ∃ fuel s h', LinkedOrder.toDict state fuel o none h = some (s, h') ∧
    Relation.TransGen h'.RefersTo s s

/-- A dictionary that can be reached from itself has no JSON form. -/
theorem Dicts.not_hasJson_of_cycle {h : Dicts} {s : Nat} (hs : Relation.TransGen h.RefersTo s s)
    (json : OrderJson) : ¬ h.HasJson s json := fun hjson ↦
  LabelledTree.Unfolds.not_transGen_self hjson hs

section

variable {state : Order → OrderState} {p a b k : Order}

open Dicts

/-- The peer of an OCO leg is given the dictionary of the leg as its `counterparty`. -/
theorem toDict_oco_callee (hb : b.strategyType = .oco) (fuel r : Nat) (h : Dicts) :
    LinkedOrder.toDict state (fuel + 1) b (some r) h =
      some (h.size, (h.make b (state b)).setEntry h.size .counterparty (some r)) := by
  simp [LinkedOrder.toDict, OCOOrder.toDict, putLink, hb]

/-- A linked OTO order is given the dictionary of the caller as its `parent`, also by its child. -/
theorem toDict_oto_callee (hk : k.strategyType = .oto) (hkid : (state k).child = none) (fuel r : Nat)
    (h : Dicts) : LinkedOrder.toDict state (fuel + 1) k (some r) h =
      some (h.size, (((h.make k (state k)).setEntry h.size .parent (some r)).setEntry h.size .child
        none).setTriggered h.size (state k).active) := by
  simp [LinkedOrder.toDict, OTOOrder.toDict, putLink, hk, hkid]

/-- **A leg of an OCO pair.** -/
theorem oco_cycle (ha : a.strategyType = .oco) (hb : b.strategyType = .oco)
    (hab : (state a).counterparty = some b) (h : Dicts) : ReturnsCycle state a h := by
  obtain ⟨h', hh'⟩ : ∃ h', h' = (((h.make a (state a)).make b (state b)).setEntry (h.size + 1)
    .counterparty (some h.size)).setEntry h.size .counterparty (some (h.size + 1)) := ⟨_, rfl⟩
  have hreturns : LinkedOrder.toDict state 2 a none h = some (h.size, h') := by
    rw [LinkedOrder.toDict, hh']
    simp [OCOOrder.toDict, putLink, ha, hab, toDict_oco_callee hb, make]
  have hdown : (h'.dict h.size).entry .counterparty = some (h.size + 1) := by simp [hh', setEntry]
  have hup : (h'.dict (h.size + 1)).entry .counterparty = some h.size := by simp [hh', setEntry]
  exact ⟨2, h.size, h', hreturns, LabelledTree.transGen_self hdown hup⟩

/-- **The parent of an OTO order.** -/
theorem oto_parent_cycle (hp : p.strategyType = .oto) (hk : k.strategyType = .oto)
    (hroot : (state p).parent = none) (hchild : (state p).child = some k)
    (hkid : (state k).child = none) (h : Dicts) : ReturnsCycle state p h := by
  obtain ⟨h₁, hh₁⟩ : ∃ h₁, h₁ = (h.make p (state p)).setEntry h.size .parent none := ⟨_, rfl⟩
  obtain ⟨h', hh'⟩ : ∃ h', h' = (((((h₁.make k (state k)).setEntry (h.size + 1) .parent
    (some h.size)).setEntry (h.size + 1) .child none).setTriggered (h.size + 1)
      (state k).active).setEntry h.size .child (some (h.size + 1))).setTriggered h.size
        (state p).active := ⟨_, rfl⟩
  have hreturns : LinkedOrder.toDict state 2 p none h = some (h.size, h') := by
    rw [LinkedOrder.toDict, hh']
    simp [OTOOrder.toDict, putLink, hp, hroot, hchild, toDict_oto_callee hk hkid, hh₁, make,
      setEntry]
  have hdown : (h'.dict h.size).entry .child = some (h.size + 1) := by
    simp [hh', setEntry, setTriggered]
  have hup : (h'.dict (h.size + 1)).entry .parent = some h.size := by
    simp [hh', setEntry, setTriggered]
  exact ⟨2, h.size, h', hreturns, LabelledTree.transGen_self hdown hup⟩

/-- **The child of an OTO order.**  Its parent calls it once more. -/
theorem oto_child_cycle (hp : p.strategyType = .oto) (hk : k.strategyType = .oto)
    (hchild : (state p).child = some k) (hparent : (state k).parent = some p)
    (hkid : (state k).child = none) (h : Dicts) : ReturnsCycle state k h := by
  obtain ⟨h₁, hh₁⟩ : ∃ h₁, h₁ = ((h.make k (state k)).make p (state p)).setEntry (h.size + 1) .parent
    (some h.size) := ⟨_, rfl⟩
  obtain ⟨h₂, hh₂⟩ : ∃ h₂, h₂ = (((((h₁.make k (state k)).setEntry (h.size + 2) .parent
    (some (h.size + 1))).setEntry (h.size + 2) .child none).setTriggered (h.size + 2)
      (state k).active).setEntry (h.size + 1) .child (some (h.size + 2))).setTriggered (h.size + 1)
        (state p).active := ⟨_, rfl⟩
  obtain ⟨h', hh'⟩ : ∃ h', h' = ((h₂.setEntry h.size .parent (some (h.size + 1))).setEntry h.size
    .child none).setTriggered h.size (state k).active := ⟨_, rfl⟩
  have hcallee : LinkedOrder.toDict state 2 p (some h.size) (h.make k (state k)) =
      some (h.size + 1, h₂) := by
    rw [LinkedOrder.toDict, hh₂]
    simp [OTOOrder.toDict, putLink, hp, hchild, toDict_oto_callee hk hkid, hh₁, make, setEntry]
  have hreturns : LinkedOrder.toDict state 3 k none h = some (h.size, h') := by
    rw [LinkedOrder.toDict, hh']
    simp [OTOOrder.toDict, putLink, hk, hkid, hparent, hcallee]
  have hdown : (h'.dict h.size).entry .parent = some (h.size + 1) := by
    simp [hh', setEntry, setTriggered]
  have hup : (h'.dict (h.size + 1)).entry .parent = some h.size := by
    simp [hh', hh₂, hh₁, setEntry, setTriggered, make]
  exact ⟨3, h.size, h', hreturns, LabelledTree.transGen_self hdown hup⟩

/-! ## Calls without an end -/

/-- A leg that is called for its peer or its parent calls its peer. -/
theorem otoco_leg_diverges (ha : a.strategyType = .otoco) (hb : b.strategyType = .otoco)
    (hab : (state a).counterparty = some b) (hba : (state b).counterparty = some a) (fuel r : Nat)
    (h : Dicts) : LinkedOrder.toDict state fuel a (some r) h = none := by
  -- Both legs at once: with one step less, neither call returns.
  induction fuel generalizing a b r h with
  | zero => rfl
  | succ fuel ih =>
    have hpeer : ∀ r h, LinkedOrder.toDict state fuel b (some r) h = none := ih hb ha hba hab
    rw [LinkedOrder.toDict]
    simp [OTOCOOrder.toDict, ha, putLink, hab, hpeer]

/-- **No call of `to_dict` on an OTOCO order returns.** -/
theorem otoco_diverges (hf : (Family.otoco p a b).Linked state) {o : Order}
    (ho : o ∈ (Family.otoco p a b).members) (fuel : Nat) (h : Dicts) :
    LinkedOrder.toDict state fuel o none h = none := by
  obtain ⟨hp, ha, hb, ⟨hpa, -, -⟩, ⟨-, hap, hab⟩, ⟨-, hbp, hba⟩⟩ := hf
  have hlegs : ∀ fuel r h, LinkedOrder.toDict state fuel a (some r) h = none :=
    otoco_leg_diverges ha hb hab hba
  have hparent : ∀ fuel param h, LinkedOrder.toDict state fuel p param h = none := by
    intro fuel param h
    cases fuel with
    | zero => rfl
    | succ fuel =>
      rw [LinkedOrder.toDict]
      simp [OTOCOOrder.toDict, hp, putLink, hpa, hlegs]
  have hleg : ∀ c, c.strategyType = .otoco → (state c).parent = some p →
      LinkedOrder.toDict state fuel c none h = none := by
    intro c hc hcp
    cases fuel with
    | zero => rfl
    | succ fuel =>
      rw [LinkedOrder.toDict]
      simp [OTOCOOrder.toDict, hc, putLink, hcp, hparent]
  simp only [Family.members, List.mem_cons, List.not_mem_nil, or_false] at ho
  obtain rfl | rfl | rfl := ho
  · exact hparent _ _ _
  · exact hleg _ ha hap
  · exact hleg _ hb hbp

end

/-! ## What the decoder loses -/

/-- A linked order is decoded without links of its own. -/
theorem OTOOrder.fromDict_true {json : OrderJson} {d : OrderObjects} {k : Order}
    (hk : (OTOOrder.fromDict json true d).1 = some k) :
    (OTOOrder.fromDict json true d).2.nextAddr = k.addr + 1 ∧
      ((OTOOrder.fromDict json true d).2.state k).parent = none := by
  cases json with
  | leaf => cases hk
  | node data link =>
    rw [OTOOrder.fromDict] at hk ⊢
    obtain rfl := Option.some_inj.1 hk
    simp [OrderObjects.new, OrderObjects.assign]

/-- **The child of an OTO order is built without its parent**, also from data in which it has one. -/
theorem OTOOrder.parent_child_fromDict {json : OrderJson} {d : OrderObjects} {o k : Order}
    (ho : (OTOOrder.fromDict json false d).1 = some o)
    (hk : ((OTOOrder.fromDict json false d).2.state o).child = some k) :
    ((OTOOrder.fromDict json false d).2.state k).parent = none := by
  cases json with
  | leaf => cases ho
  | node data link =>
    rw [OTOOrder.fromDict] at ho hk ⊢
    obtain rfl := Option.some_inj.1 ho
    simp only [OrderObjects.new, OrderObjects.assign, Function.update_self, Bool.false_eq_true,
      if_false] at hk ⊢
    obtain ⟨haddr, hparent⟩ := fromDict_true hk
    -- The child was made just before its parent.
    have hne : ∀ {o : Order}, o.addr = k.addr + 1 → k ≠ o := by
      rintro o ho rfl
      omega
    rw [Function.update_of_ne (hne haddr), Function.update_of_ne (hne haddr)]
    exact hparent

end Spectuel

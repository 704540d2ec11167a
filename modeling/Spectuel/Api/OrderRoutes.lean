import Mathlib.Data.List.Flatten
import Mathlib.Data.List.Perm.Subperm
import Spectuel.Api.MarketBars
import Spectuel.Api.OrderGroups
import Spectuel.Lib.Runs
import Spectuel.Services.OrderEventHandler

/-!
# The routes under `/orders`

`api/routers/orders/router.py`: the routes that create orders commit their rows and then await
`put_command`, and the routes `modify_order` and `cancel_order` look for a row of the user first.

Requests are handled concurrently, so between what a route reads or commits and its `put_command` other
routes run, and the handler of the order events writes the same table.  Commands may reach the log in
another order than their requests came in, a cancel before the order that it names among it.

`OrderRoutes.Inv` says whose orders a command names: there are rows of the requester for all of them,
and no two commands create orders of one id.
-/

set_option autoImplicit false

namespace Spectuel

/-! ## The table -/

/-- The row that is added for an order. -/
def OrderMeta.row (m : OrderMeta) (symbol : Symbol) : OrderRow where
  userId := m.userId
  symbol
  limitPrice := m.limitPrice
  stopPrice := m.stopPrice

namespace OrderDb

/-- `select(Orders).where(Orders.order_id == order_id, Orders.user_id == jwt.sub)` -/
def ofUser (db : OrderDb) (orderId sub : Uuid) : Option OrderRow :=
  (db.orders orderId).filter (·.userId = sub)

/-- The rows of new orders are added and committed.  The id of an order is the primary key, so the
commit raises if one of the ids is there already. -/
def commit (db : OrderDb) (symbol : Symbol) (orders : List OrderMeta) : Option OrderDb :=
  if (orders.map (·.orderId)).Nodup ∧ ∀ m ∈ orders, db.orders m.orderId = none then
    some { db with
      orders := fun id ↦
        ((orders.find? (·.orderId = id)).map (·.row symbol)).orElse fun _ ↦ db.orders id }
  else none

/-- The user has a row for the order, under the symbol. -/
def Owns (db : OrderDb) (userId : Uuid) (symbol : Symbol) (id : Uuid) : Prop :=
  ∃ row, db.orders id = some row ∧ row.userId = userId ∧ row.symbol = symbol

/-- Every row is kept, of its user and under its symbol. -/
def Keeps (db db' : OrderDb) : Prop :=
  ∀ id row, db.orders id = some row →
    ∃ row', db'.orders id = some row' ∧ row'.userId = row.userId ∧ row'.symbol = row.symbol

end OrderDb

/-! ## The routes -/

/-- A request to one of the routes under `/orders` that write to the log, with the ids drawn for it. -/
inductive OrderCall
  | createOrder (commandId orderId : Uuid) (details : OrderPayload)
  | createOcoOrder (commandId legA legB : Uuid) (details : OCOPayload)
  | createOtoOrder (commandId parent child : Uuid) (details : OTOPayload)
  | createOtocoOrder (commandId parent legA legB : Uuid) (details : OTOCOPayload)
  | modifyOrder (commandId orderId : Uuid) (limitPrice stopPrice : Option ℚ)
  | cancelOrder (commandId orderId : Uuid)
  deriving DecidableEq

/-- A command that a route puts on the log under a symbol.  The requester is not part of the message. -/
structure Put where
  requester : Uuid
  symbol : Symbol
  command : Command
  deriving DecidableEq

/-- What is answered instead of 202. -/
inductive RouteError
  | http (e : HTTPException)
  /-- The body is rejected, or something else is raised before the command is put. -/
  | raised
  deriving DecidableEq

namespace OrderDb

variable (db : OrderDb) (sub : Uuid)

/-- The four routes that create orders, with `OrderService.create`: the table after the commit, and what
is put then. -/
def create (symbol : Symbol) (request : ApiRequest) : Except RouteError (OrderDb × Put) :=
  match request.command? with
  | none => .error .raised
  | some command =>
    match db.commit symbol command.orders with
    | none => .error .raised
    | some db' => .ok (db', ⟨sub, symbol, command⟩)

/-- `modify_order` -/
def modifyOrder (commandId orderId : Uuid) (limitPrice stopPrice : Option ℚ) : Except RouteError Put :=
  match db.ofUser orderId sub with
  | none => .error (.http ⟨404, "Order not found"⟩)
  | some order =>
    if order.status = .filled then .error (.http ⟨400, "Cannot perform operation on filled order"⟩)
    else
      match (ApiRequest.modify commandId orderId limitPrice stopPrice).command? with
      | none => .error .raised
      | some command => .ok ⟨sub, order.symbol, command⟩

/-- `cancel_order` -/
def cancelOrder (commandId orderId : Uuid) : Except RouteError Put :=
  match db.ofUser orderId sub with
  | none => .error (.http ⟨404, "Order not found"⟩)
  | some order => .ok ⟨sub, order.symbol, ⟨commandId, .cancelOrder orderId⟩⟩

/-- A request of the user `jwt.sub`, up to its `put_command`. -/
def call : OrderCall → Except RouteError (OrderDb × Put)
  | .createOrder commandId orderId details =>
    db.create sub details.symbol (.single commandId orderId sub details)
  | .createOcoOrder commandId legA legB details =>
    db.create sub details.symbol (.oco commandId legA legB sub details)
  | .createOtoOrder commandId parent child details =>
    db.create sub details.symbol (.oto commandId parent child sub details)
  | .createOtocoOrder commandId parent legA legB details =>
    db.create sub details.symbol (.otoco commandId parent legA legB sub details)
  | .modifyOrder commandId orderId limitPrice stopPrice =>
    (db.modifyOrder sub commandId orderId limitPrice stopPrice).map (db, ·)
  | .cancelOrder commandId orderId => (db.cancelOrder sub commandId orderId).map (db, ·)

end OrderDb

/-! ## Interleavings -/

/-- The table, the commands whose `put_command` is awaited, and the log. -/
structure OrderRoutes where
  db : OrderDb := {}
  pending : List Put := []
  log : List Put := []

/-- What happens between two awaits. -/
inductive RouteStep
  /-- A request of a user is handled up to its `put_command`. -/
  | call (sub : Uuid) (request : OrderCall)
  /-- A command reaches the log. -/
  | send (n : ℕ)
  /-- A `put_command` raises. -/
  | fail (n : ℕ)
  /-- The handler of the order events is given an event. -/
  | handle (event : OrderEvent)

namespace OrderRoutes

/-- The commands that are on the log or may get there. -/
def puts (s : OrderRoutes) : List Put := s.pending ++ s.log

def step (s : OrderRoutes) : RouteStep → OrderRoutes
  | .call sub request =>
    match s.db.call sub request with
    | .error _ => s
    | .ok (db, put) => { s with db, pending := s.pending ++ [put] }
  | .send n =>
    match s.pending[n]? with
    | none => s
    | some put => { s with pending := s.pending.eraseIdx n, log := s.log ++ [put] }
  | .fail n => { s with pending := s.pending.eraseIdx n }
  | .handle event => { s with db := s.db.handleEvent event }

end OrderRoutes

/-- The ids of the orders that a command creates, cancels or modifies. -/
def Command.names (cmd : Command) : List Uuid :=
  match cmd.body with
  | .newOrder payload => payload.orders.map (·.orderId)
  | .cancelOrder id => [id]
  | .modifyOrder id _ _ => [id]

theorem Command.mem_names {cmd : Command} {m : OrderMeta} (hm : m ∈ cmd.orders) : m.orderId ∈ cmd.names := by
  rw [orders] at hm
  rw [names]
  split at hm
  · rename_i hbody
    rw [hbody]
    exact List.mem_map_of_mem hm
  · cases hm

/-- The command is of the requester: it names orders of which they have a row, and creates orders of
theirs only. -/
structure Put.Owned (db : OrderDb) (put : Put) : Prop where
  names : ∀ id ∈ put.command.names, db.Owns put.requester put.symbol id
  orders : ∀ m ∈ put.command.orders, m.userId = put.requester ∧ m.Admitted

/-- What holds between any two steps. -/
structure OrderRoutes.Inv (s : OrderRoutes) : Prop where
  owned : ∀ put ∈ s.puts, put.Owned s.db
  nodup : ((s.puts.flatMap (·.command.orders)).map (·.orderId)).Nodup

/-! ## What keeps the invariant -/

section Tables

variable {db db' db'' : OrderDb} {u : Uuid} {symbol : Symbol} {id : Uuid} {orders : List OrderMeta} {put : Put}

namespace OrderDb

theorem ofUser_eq_some {row : OrderRow} : db.ofUser id u = some row ↔ db.orders id = some row ∧ row.userId = u := by
  simp [ofUser, Option.filter_eq_some_iff]

theorem Owns.unique {u' : Uuid} {symbol' : Symbol} (h : db.Owns u symbol id) (h' : db.Owns u' symbol' id) :
    u = u' ∧ symbol = symbol' := by
  obtain ⟨row, hrow, rfl, rfl⟩ := h
  obtain ⟨row', hrow', rfl, rfl⟩ := h'
  obtain rfl := Option.some_inj.1 (hrow.symm.trans hrow')
  exact ⟨rfl, rfl⟩

theorem Keeps.refl (db : OrderDb) : db.Keeps db := fun _ row h ↦ ⟨row, h, rfl, rfl⟩

theorem Keeps.owns (h : db.Keeps db') (ho : db.Owns u symbol id) : db'.Owns u symbol id := by
  obtain ⟨row, hrow, rfl, rfl⟩ := ho
  exact h id row hrow

theorem commit_eq_some : db.commit symbol orders = some db' ↔
    ((orders.map (·.orderId)).Nodup ∧ ∀ m ∈ orders, db.orders m.orderId = none) ∧
      { db with
        orders := fun id ↦
          ((orders.find? (·.orderId = id)).map (·.row symbol)).orElse fun _ ↦ db.orders id } = db' := by
  rw [commit]
  split
  · rename_i h
    rw [Option.some_inj]
    exact (and_iff_right h).symm
  · rename_i h
    exact iff_of_false (fun hc ↦ by cases hc) fun hc ↦ h hc.1

/-- A commit adds rows and changes none. -/
theorem commit_keeps (h : db.commit symbol orders = some db') : db.Keeps db' := by
  obtain ⟨⟨-, hfree⟩, rfl⟩ := commit_eq_some.1 h
  intro id row hrow
  refine ⟨row, ?_, rfl, rfl⟩
  have hno : orders.find? (·.orderId = id) = none := by
    refine List.find?_eq_none.2 fun m hm hid ↦ ?_
    have hnone := hfree m hm
    rw [of_decide_eq_true hid, hrow] at hnone
    cases hnone
  simp only [hno, Option.map_none, Option.orElse_none, hrow]

/-- The rows of the new orders are there then. -/
theorem commit_owns (h : db.commit symbol orders = some db') {m : OrderMeta} (hm : m ∈ orders) :
    db'.Owns m.userId symbol m.orderId := by
  obtain ⟨⟨hnd, -⟩, rfl⟩ := commit_eq_some.1 h
  have hfind : orders.find? (·.orderId = m.orderId) = some m := by
    cases hm' : orders.find? (·.orderId = m.orderId) with
    | none => exact absurd (decide_eq_true rfl) (List.find?_eq_none.1 hm' m hm)
    | some m' =>
      have hid : m'.orderId = m.orderId := by simpa using List.find?_some hm'
      rw [List.inj_on_of_nodup_map hnd (List.mem_of_find?_eq_some hm') hm hid]
  exact ⟨m.row symbol, by simp only [hfind, Option.map_some, Option.orElse_some], rfl, rfl⟩

/-- An assignment to columns other than `user_id` and `symbol`. -/
theorem assign_keeps {f : OrderRow → Except Exc OrderRow}
    (hf : ∀ row row', f row = .ok row' → row'.userId = row.userId ∧ row'.symbol = row.symbol)
    (h : db.assign id f = .ok db') : db.Keeps db' := by
  rw [assign] at h
  split at h
  · obtain rfl := Except.ok.inj h
    exact .refl db
  · rename_i row hrow
    cases hfr : f row with
    | error e =>
      rw [hfr] at h
      cases h
    | ok row' =>
      rw [hfr] at h
      obtain rfl := Except.ok.inj h
      intro x r hx
      by_cases hxi : x = id
      · subst hxi
        obtain rfl := Option.some_inj.1 (hrow.symm.trans hx)
        exact ⟨row', Function.update_self .., hf row row' hfr⟩
      · exact ⟨r, (Function.update_of_ne hxi ..).trans hx, rfl, rfl⟩

theorem handler_keeps {t : OrderEventType} {m : OrderMessage} (h : handler t m db = .ok db') :
    db.Keeps db' := by
  cases t with
  | placed | filled | modified | cancelled =>
    refine assign_keeps (fun row row' hr ↦ ?_) h
    obtain rfl := Except.ok.inj hr
    exact ⟨rfl, rfl⟩
  | partiallyFilled => exact assign_keeps (fun row row' hr ↦ by cases hr) h
  | modifyRejected =>
    obtain rfl := Except.ok.inj h
    exact .refl db

theorem handleEvent_keeps (db : OrderDb) (e : OrderEvent) : db.Keeps (db.handleEvent e) := by
  cases h : db.transaction e with
  | error _ =>
    rw [handleEvent, h]
    exact .refl db
  | ok db' =>
    rw [handleEvent, h]
    rcases transaction_ok h with rfl | ⟨m, row, -, hm⟩
    · exact .refl _
    · have hk : (db.record m row).Keeps db' := handler_keeps hm
      exact hk

end OrderDb

/-! ### Requests -/

/-- The request creates orders, for this user. -/
def ApiRequest.CreatesFor (sub : Uuid) : ApiRequest → Prop
  | single _ _ userId _ | oco _ _ _ userId _ | oto _ _ _ userId _ | otoco _ _ _ _ userId _ => userId = sub
  | cancel .. | modify .. => False

/-- What a request that creates orders puts on the log. -/
theorem ApiRequest.createsFor {r : ApiRequest} {cmd : Command} (h : r.command? = some cmd)
    (hr : r.CreatesFor u) :
    cmd.names = cmd.orders.map (·.orderId) ∧ ∀ m ∈ cmd.orders, m.userId = u := by
  cases r with
  | single commandId orderId userId payload =>
    obtain ⟨details, -, -, rfl⟩ := OrderRequest.command?_create.1 h
    refine ⟨rfl, fun m hm ↦ ?_⟩
    obtain rfl : m = _ := List.mem_singleton.1 hm
    exact hr
  | oco commandId legA legB userId payload =>
    simp only [command?, Option.bind_eq_bind, Option.bind_eq_some_iff] at h
    obtain ⟨details, -, h⟩ := h
    unfold OrderService.createOco at h
    split at h
    · cases h
      refine ⟨rfl, fun m hm ↦ ?_⟩
      simp only [Command.orders, NewOrder.orders, List.mem_cons, List.not_mem_nil, or_false] at hm
      rcases hm with rfl | rfl <;> exact hr
    · cases h
  | oto commandId parent child userId payload =>
    simp only [command?, Option.bind_eq_bind, Option.bind_eq_some_iff] at h
    obtain ⟨details, -, h⟩ := h
    unfold OrderService.createOto at h
    split at h
    · cases h
      refine ⟨rfl, fun m hm ↦ ?_⟩
      simp only [Command.orders, NewOrder.orders, List.mem_cons, List.not_mem_nil, or_false] at hm
      rcases hm with rfl | rfl <;> exact hr
    · cases h
  | otoco commandId parent legA legB userId payload =>
    simp only [command?, Option.bind_eq_bind, Option.bind_eq_some_iff] at h
    obtain ⟨details, -, h⟩ := h
    unfold OrderService.createOtoco at h
    split at h
    · cases h
      refine ⟨rfl, fun m hm ↦ ?_⟩
      simp only [Command.orders, NewOrder.orders, List.mem_cons, List.not_mem_nil, or_false] at hm
      rcases hm with rfl | rfl | rfl <;> exact hr
    · cases h
  | cancel | modify => exact hr.elim

theorem Put.Owned.mono (h : put.Owned db) (hk : db.Keeps db') : put.Owned db' :=
  ⟨fun id hid ↦ hk.owns (h.names id hid), h.orders⟩

namespace OrderDb

/-- What a request leaves when it gets to its `put_command`. -/
structure Calls (db : OrderDb) (u : Uuid) (db' : OrderDb) (put : Put) : Prop where
  requester : put.requester = u
  keeps : db.Keeps db'
  owned : put.Owned db'
  nodup : (put.command.orders.map (·.orderId)).Nodup
  free : ∀ m ∈ put.command.orders, db.orders m.orderId = none

theorem create_calls {r : ApiRequest} (hr : r.CreatesFor u) (h : db.create u symbol r = .ok (db', put)) :
    db.Calls u db' put := by
  rw [create] at h
  split at h
  · cases h
  · rename_i command hcmd
    obtain ⟨hnames, husers⟩ := ApiRequest.createsFor hcmd hr
    split at h
    · cases h
    · rename_i db₁ hdb
      cases h
      obtain ⟨⟨hnd, hfree⟩, -⟩ := commit_eq_some.1 hdb
      refine ⟨rfl, commit_keeps hdb, ⟨fun id hid ↦ ?_, fun m hm ↦ ?_⟩, hnd, hfree⟩
      · rw [hnames] at hid
        obtain ⟨m, hm, rfl⟩ := List.mem_map.1 hid
        rw [← husers m hm]
        exact commit_owns hdb hm
      · exact ⟨husers m hm, ApiRequest.admitted hcmd m hm⟩

/-- A command that creates nothing and names an order of which the user has a row. -/
theorem Calls.of_row {row : OrderRow} {cmd : Command} (hrow : db.ofUser id u = some row)
    (hnames : cmd.names = [id]) (horders : cmd.orders = []) : db.Calls u db ⟨u, row.symbol, cmd⟩ := by
  obtain ⟨hrow, hu⟩ := ofUser_eq_some.1 hrow
  have hnone : ∀ m : OrderMeta, m ∉ cmd.orders := by simp [horders]
  refine ⟨rfl, .refl db, ⟨fun x hx ↦ ?_, fun m hm ↦ (hnone m hm).elim⟩, ?_, fun m hm ↦ (hnone m hm).elim⟩
  · rw [hnames] at hx
    obtain rfl := List.mem_singleton.1 hx
    exact ⟨row, hrow, hu, rfl⟩
  · rw [horders]
    exact .nil

/-- **What a request does** that gets to its `put_command`. -/
theorem call_calls {request : OrderCall} (h : db.call u request = .ok (db', put)) : db.Calls u db' put := by
  cases request with
  | createOrder | createOcoOrder | createOtoOrder | createOtocoOrder =>
    rw [call] at h
    exact create_calls (by rw [ApiRequest.CreatesFor]) h
  | modifyOrder commandId orderId limitPrice stopPrice =>
    rw [call, modifyOrder] at h
    split at h
    · cases h
    · rename_i row hrow
      split at h
      · cases h
      · split at h
        · cases h
        · rename_i command hcmd
          cases h
          simp only [ApiRequest.command?, Option.bind_eq_bind, Option.bind_eq_some_iff] at hcmd
          obtain ⟨_, -, _, -, hcmd⟩ := hcmd
          cases hcmd
          exact .of_row hrow rfl rfl
  | cancelOrder commandId orderId =>
    rw [call, cancelOrder] at h
    split at h
    · cases h
    · rename_i row hrow
      cases h
      exact .of_row hrow rfl rfl

end OrderDb

end Tables

/-! ### Steps -/

namespace OrderRoutes

variable {s : OrderRoutes}

/-- A change that adds no command. -/
theorem Inv.of_subperm {s' : OrderRoutes} (h : s.Inv) (hk : s.db.Keeps s'.db)
    (hp : s'.puts.Subperm s.puts) : s'.Inv := by
  refine ⟨fun put hput ↦ (h.owned put (hp.subset hput)).mono hk, ?_⟩
  obtain ⟨l, hl, hsub⟩ := hp
  have hids := ((hl.flatMap_right fun put ↦ put.command.orders).map (·.orderId)).nodup_iff
  exact hids.1 (h.nodup.sublist ((hsub.flatMap _).map _))

theorem Inv.step (h : s.Inv) (a : RouteStep) : (s.step a).Inv := by
  cases a with
  | call sub request =>
    rw [OrderRoutes.step]
    split
    · exact h
    · rename_i db put hcall
      obtain ⟨-, hk, hown, hnd, hfree⟩ := OrderDb.call_calls hcall
      have hperm : (s.pending ++ [put] ++ s.log).Perm (put :: s.puts) := by
        rw [puts, List.append_assoc, List.singleton_append]
        exact List.perm_middle
      refine ⟨fun put' hput' ↦ ?_, ?_⟩
      · rcases List.mem_cons.1 (hperm.subset hput') with rfl | hput'
        · exact hown
        · exact (h.owned put' hput').mono hk
      · rw [puts, ((hperm.flatMap_right fun put ↦ put.command.orders).map (·.orderId)).nodup_iff,
          List.flatMap_cons, List.map_append, List.nodup_append]
        refine ⟨hnd, h.nodup, ?_⟩
        rintro id hid _ hid' rfl
        obtain ⟨m, hm, rfl⟩ := List.mem_map.1 hid
        -- the orders of the other commands have rows, and these had none
        obtain ⟨m', hm', hid'⟩ := List.mem_map.1 hid'
        obtain ⟨put', hput', hm'⟩ := List.mem_flatMap.1 hm'
        obtain ⟨row, hrow, -⟩ := (h.owned put' hput').names m.orderId (hid' ▸ Command.mem_names hm')
        rw [hfree m hm] at hrow
        cases hrow
  | send n =>
    rw [OrderRoutes.step]
    split
    · exact h
    · rename_i put hput
      obtain ⟨hn, rfl⟩ := List.getElem?_eq_some_iff.1 hput
      have hlast : (s.pending.eraseIdx n ++ (s.log ++ [s.pending[n]])).Perm
          (s.pending[n] :: (s.pending.eraseIdx n ++ s.log)) := by
        rw [← List.append_assoc]
        exact List.perm_append_singleton _ _
      exact h.of_subperm (.refl _)
        (hlast.trans ((List.getElem_cons_eraseIdx_perm hn).append_right s.log)).subperm
  | fail n =>
    exact h.of_subperm (.refl _) (((List.eraseIdx_sublist s.pending n).append_right s.log).subperm)
  | handle event => exact h.of_subperm (s.db.handleEvent_keeps event) (.refl _)

/-- **What holds of every interleaving.** -/
theorem inv_after (steps : List RouteStep) : (Runs.after step steps {}).Inv :=
  Runs.after_invariant (fun _ a _ h ↦ h.step a) ⟨fun _ hput ↦ (List.not_mem_nil hput).elim, List.nodup_nil⟩

end OrderRoutes

end Spectuel

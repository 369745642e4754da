import PoseidonHttp.Lib.Modify

/-!
# A desk that lends out shared items

One party owns a set of items and lends them to clients. A client hands in a request and waits at
its mailbox; it may give up, and then somebody else takes the answer for it and gives back what
the answer lends. An item is lent to several clients at once, up to a limit that may change; it
may break at any time, and the desk orders new items as long as those that work and those on
order stay within a capacity.

`Step` is one move of the desk, of a client or of the world; a program that runs such a desk is
compared with it through a map from its states to `Desk`. `Sound` is what every run keeps: each
request is in the queue once or has one answer, the load of an item is the number of leases on
it, and an item that is off the shelf has been closed and put on record once.
-/

namespace Lending

/-! ## Clients -/

/-- Where a client stands. -/
inductive Phase where
  | waiting
  /-- gave up; the answer is taken by somebody else -/
  | abandoned
  | holding (c : ℕ)
  /-- gave its item back when the desk had shut -/
  | late (c : ℕ)
  | gone
  deriving DecidableEq, Repr

/-- The client has the use of item `c`. -/
def Phase.keeps (c : ℕ) : Phase → Bool
  | .holding k => k == c
  | .late k => k == c
  | _ => false

/-- A client with its mailbox: the answers that were put in and have not been taken out.
`answers` counts all that were ever put in. -/
structure Client (ε : Type) where
  expired : Bool
  phase : Phase
  mailbox : List (Except ε ℕ)
  answers : ℕ

variable {ε : Type}

namespace Client

def new : Client ε := ⟨false, .waiting, [], 0⟩

def expire (cl : Client ε) : Client ε := { cl with expired := true }

def deliver (a : Except ε ℕ) (cl : Client ε) : Client ε :=
  { cl with mailbox := cl.mailbox ++ [a], answers := cl.answers + 1 }

def become (phase : Phase) (cl : Client ε) : Client ε := { cl with phase }

/-- The phase after an answer. -/
def outcome : Except ε ℕ → Phase
  | .ok c => .holding c
  | .error _ => .gone

/-- The answer `a` is taken out of the mailbox, where it was before `rest`. -/
def take (a : Except ε ℕ) (rest : List (Except ε ℕ)) (cl : Client ε) : Client ε :=
  { cl with phase := outcome a, mailbox := rest }

/-- The answer lends item `c`. -/
def lends (c : ℕ) : Except ε ℕ → Bool
  | .ok k => k == c
  | .error _ => false

/-- The leases on item `c` that were given to the client and not given back. -/
def leases (c : ℕ) (cl : Client ε) : ℕ :=
  cl.mailbox.countP (lends c) + (cl.phase.keeps c).toNat

/-- An answer that is waited for has not been taken. -/
def pending (cl : Client ε) : Prop := cl.phase = .waiting ∨ cl.phase = .abandoned

@[simp] theorem leases_new (c : ℕ) : (new : Client ε).leases c = 0 := rfl

theorem leases_deliver (c : ℕ) (a : Except ε ℕ) (cl : Client ε) :
    (cl.deliver a).leases c = cl.leases c + (lends c a).toNat := by
  simp only [leases, deliver, List.countP_append, List.countP_singleton]
  cases lends c a <;> simp only [Bool.toNat_true, Bool.toNat_false, if_true, if_false,
    Bool.false_eq_true] <;> omega

theorem keeps_outcome (c : ℕ) (a : Except ε ℕ) : (outcome a).keeps c = lends c a := by
  cases a <;> rfl

theorem keeps_of_pending {cl : Client ε} (h : cl.pending) (c : ℕ) : cl.phase.keeps c = false := by
  rcases h with h | h <;> simp [h, Phase.keeps]

/-- Taking an answer moves its lease from the mailbox to the client. -/
theorem leases_take {cl : Client ε} {a : Except ε ℕ} {rest : List (Except ε ℕ)}
    (hpending : cl.pending) (hbox : cl.mailbox = a :: rest) (c : ℕ) :
    (cl.take a rest).leases c = cl.leases c := by
  simp only [leases, take, hbox, List.countP_cons, keeps_outcome, keeps_of_pending hpending]
  cases lends c a <;> simp

theorem leases_become (c : ℕ) (phase : Phase) (cl : Client ε) :
    (cl.become phase).leases c + (cl.phase.keeps c).toNat =
      cl.leases c + (phase.keeps c).toNat := by
  simp only [leases, become]
  omega

end Client

/-! ## The desk -/

/-- An item: whether it works, whether it was closed, on how many leases it is out, and the
number of leases at which no more are given. -/
structure Item where
  live : Bool
  closed : Bool
  load : ℤ
  limit : ℤ
  deriving DecidableEq, Repr

namespace Item

def lend (it : Item) : Item := { it with load := it.load + 1 }

def giveBack (it : Item) : Item := { it with load := it.load - 1 }

def close (it : Item) : Item := { it with live := false, closed := true }

/-- The item breaks, by being closed from outside or otherwise. -/
def fall (closed : Bool) (it : Item) : Item :=
  { it with live := false, closed := it.closed || closed }

def relimit (n : ℤ) (it : Item) : Item := { it with limit := n }

end Item

/-- What is on record: the lending of an item and its closing, with the item as it was then. A
closing is final if it belongs to the shutting of the desk. -/
inductive Event where
  | lent (c : ℕ) (it : Item)
  | closed (c : ℕ) (it : Item) (final : Bool)
  deriving DecidableEq, Repr

/-- The event closes item `c`. -/
def Event.closes (c : ℕ) : Event → Bool
  | .closed k _ _ => k == c
  | .lent _ _ => false

/-- Items are lent while they work and are below their limit, and closed in use at the shutting of
the desk only, or when `spare` allows it. -/
def Event.Fits (spare : Item → Prop) : Event → Prop
  | .lent _ it => it.live = true ∧ it.load < it.limit
  | .closed _ it final => final = true ∨ spare it

/-- The desk, its clients and what is on the way back to it. Items and clients are numbered as
they come; those on the shelf are the ones the desk still has. -/
structure Desk (ε : Type) where
  cap : ℤ
  items : List Item
  shelf : List ℕ
  queue : List ℕ
  coming : ℕ
  clients : List (Client ε)
  returns : List ℕ
  shut : Bool
  log : List Event

namespace Desk

def load (d : Desk ε) (c : ℕ) : ℤ := (d.items[c]?.map Item.load).getD 0

def live (d : Desk ε) (c : ℕ) : Bool := (d.items[c]?.map Item.live).getD false

def liveCount (d : Desk ε) : ℕ := d.shelf.countP d.live

/-- The leases on item `c` that clients have. -/
def owed (d : Desk ε) (c : ℕ) : ℕ := (d.clients.map (Client.leases c)).sum

/-- How often item `c` was closed. -/
def closings (d : Desk ε) (c : ℕ) : ℕ := d.log.countP (Event.closes c)

/-- One move. `spare` says which items on the shelf may be closed while the desk is open. -/
inductive Step (spare : Item → Prop) (d : Desk ε) : Desk ε → Prop
  | enter (hopen : d.shut = false) : Step spare d { d with
      clients := d.clients ++ [.new]
      queue := d.queue ++ [d.clients.length] }
  | serve {i c : ℕ} {it : Item} {rest : List ℕ} (hqueue : d.queue.Perm (i :: rest))
      (hshelf : c ∈ d.shelf) (hitem : d.items[c]? = some it) (hlive : it.live = true)
      (hroom : it.load < it.limit) : Step spare d { d with
      queue := rest
      clients := d.clients.modify i (.deliver (.ok c))
      items := d.items.modify c .lend
      log := d.log ++ [.lent c it] }
  | refuse {i : ℕ} {rest : List ℕ} (e : ε) (hqueue : d.queue.Perm (i :: rest)) :
      Step spare d { d with
        queue := rest
        clients := d.clients.modify i (.deliver (.error e)) }
  | settle {c : ℕ} {rest : List ℕ} (hreturns : d.returns = c :: rest) : Step spare d { d with
      returns := rest
      items := d.items.modify c .giveBack }
  | order (n : ℕ) (hopen : d.shut = false) (hcap : d.liveCount + d.coming + n ≤ d.cap) :
      Step spare d { d with coming := d.coming + n }
  | arrive {n : ℕ} (it : Item) (hcoming : d.coming = n + 1) (hload : it.load = 0)
      (hopen : d.shut = false) : Step spare d { d with
      coming := n
      items := d.items ++ [it]
      shelf := d.shelf ++ [d.items.length] }
  | fail {n : ℕ} (hcoming : d.coming = n + 1) : Step spare d { d with coming := n }
  /-- after the shutting, what was on order is closed when it comes -/
  | drain {n : ℕ} (it : Item) (hcoming : d.coming = n + 1) (hload : it.load = 0)
      (hshut : d.shut = true) : Step spare d { d with
      coming := n
      items := d.items ++ [it.close]
      log := d.log ++ [.closed d.items.length it true] }
  | discard {c : ℕ} {it : Item} {rest : List ℕ} (final : Bool)
      (hshelf : d.shelf.Perm (c :: rest)) (hitem : d.items[c]? = some it)
      (hspare : final = true ∨ spare it) : Step spare d { d with
      shelf := rest
      items := d.items.modify c .close
      log := d.log ++ [.closed c it final] }
  | fall (c : ℕ) (closed : Bool) : Step spare d { d with items := d.items.modify c (.fall closed) }
  | relimit (c : ℕ) (n : ℤ) : Step spare d { d with items := d.items.modify c (.relimit n) }
  | shut (hqueue : d.queue = []) (hshelf : d.shelf = []) : Step spare d { d with shut := true }
  | expire (i : ℕ) : Step spare d { d with clients := d.clients.modify i .expire }
  | take {i : ℕ} {cl : Client ε} {a : Except ε ℕ} {rest : List (Except ε ℕ)}
      (hclient : d.clients[i]? = some cl) (hpending : cl.pending) (hbox : cl.mailbox = a :: rest) :
      Step spare d { d with clients := d.clients.modify i (.take a rest) }
  | abandon {i : ℕ} {cl : Client ε} (hclient : d.clients[i]? = some cl)
      (hphase : cl.phase = .waiting) :
      Step spare d { d with clients := d.clients.modify i (.become .abandoned) }
  | giveBack {i c : ℕ} {cl : Client ε} (hclient : d.clients[i]? = some cl)
      (hphase : cl.phase = .holding c) : Step spare d { d with
      clients := d.clients.modify i (.become .gone)
      returns := d.returns ++ [c] }
  /-- who finds the desk shut closes the item, which is closed already -/
  | keep {i c : ℕ} {cl : Client ε} (hclient : d.clients[i]? = some cl)
      (hphase : cl.phase = .holding c) (hshut : d.shut = true) : Step spare d { d with
      clients := d.clients.modify i (.become (.late c))
      items := d.items.modify c .close }

/-- What every run keeps. -/
structure Sound (spare : Item → Prop) (d : Desk ε) : Prop where
  /-- a request is in the queue once or has one answer -/
  answered : ∀ i cl, d.clients[i]? = some cl → d.queue.count i + cl.answers = 1
  queued : ∀ i ∈ d.queue, i < d.clients.length
  mailbox : ∀ cl ∈ d.clients, cl.mailbox.length ≤ cl.answers
  /-- the load of an item is the number of leases on it -/
  tallied : ∀ c, d.load c = d.owed c + d.returns.count c
  shelved : ∀ c ∈ d.shelf, c < d.items.length
  /-- an item is on the shelf once or was closed once -/
  once : ∀ c, d.shelf.count c + d.closings c = if c < d.items.length then 1 else 0
  closed : ∀ c it, d.items[c]? = some it → c ∉ d.shelf → it.closed = true ∧ it.live = false
  bounded : d.shut = false → d.liveCount + d.coming ≤ d.cap
  emptied : d.shut = true → d.queue = [] ∧ d.shelf = []
  recorded : ∀ e ∈ d.log, e.Fits spare

variable {spare : Item → Prop} {d d' : Desk ε}

/-! ### Requests and answers -/

variable {cl : Client ε} {f : Client ε → Client ε} {it : Item} {rest : List ℕ} {c i : ℕ}

theorem count_of_perm {q : List ℕ} (h : q.Perm (i :: rest)) (k : ℕ) :
    q.count k = rest.count k + (i == k).toNat := by
  rw [h.count_eq, List.count_cons]
  cases i == k <;> simp

/-- An answer is counted where the request leaves the queue. -/
theorem answered_deliver (h : d.Sound spare) (a : Except ε ℕ) (hqueue : d.queue.Perm (i :: rest))
    (k : ℕ) (cl : Client ε) (hcl : (d.clients.modify i (.deliver a))[k]? = some cl) :
    rest.count k + cl.answers = 1 := by
  have hcount := count_of_perm hqueue k
  rcases Modify.getElem?_modify_cases hcl with ⟨hik, hk⟩ | ⟨rfl, old, hk, rfl⟩
  · have hold := h.answered k cl hk
    have hne : (i == k) = false := by simpa using hik
    simp only [hne, Bool.toNat_false] at hcount
    omega
  · have hold := h.answered i old hk
    simp only [beq_self_eq_true, Bool.toNat_true] at hcount
    simp only [Client.deliver]
    omega

/-- A change of a client that sends no answer leaves the count. -/
theorem answered_modify (h : d.Sound spare) {k : ℕ} (hcl : (d.clients.modify i f)[k]? = some cl)
    (hf : ∀ cl, (f cl).answers = cl.answers) :
    d.queue.count k + cl.answers = 1 := by
  rcases Modify.getElem?_modify_cases hcl with ⟨-, hk⟩ | ⟨-, old, hk, rfl⟩
  · exact h.answered k cl hk
  · rw [hf]
    exact h.answered k old hk

theorem Step.answered (hstep : Step spare d d') (h : d.Sound spare) (k : ℕ) (cl : Client ε)
    (hcl : d'.clients[k]? = some cl) : d'.queue.count k + cl.answers = 1 := by
  cases hstep with
  | enter =>
    have hfresh : d.queue.count d.clients.length = 0 := by
      apply List.count_eq_zero.mpr
      intro hmem
      exact lt_irrefl _ (h.queued _ hmem)
    rw [List.getElem?_append] at hcl
    simp only [List.count_append, List.count_singleton]
    split_ifs at hcl with hk
    · have hne : (d.clients.length == k) = false := by simpa using Nat.ne_of_gt hk
      simpa [hne] using h.answered k cl hcl
    -- the only place beyond the old clients is that of the new one
    have hk' : k = d.clients.length := by
      rcases Nat.eq_zero_or_pos (k - d.clients.length) with hz | hpos
      · omega
      · simp [List.getElem?_eq_none (show [Client.new].length ≤ k - d.clients.length from hpos)]
          at hcl
    subst hk'
    simp only [Nat.sub_self, List.getElem?_cons_zero, Option.some.injEq] at hcl
    subst hcl
    simp [hfresh, Client.new]
  | serve hqueue => exact answered_deliver h _ hqueue k cl hcl
  | refuse e hqueue => exact answered_deliver h _ hqueue k cl hcl
  | expire | take | abandon | giveBack | keep => exact answered_modify h hcl fun _ => rfl
  | _ => exact h.answered k cl hcl

theorem Step.queued (hstep : Step spare d d') (h : d.Sound spare) (i : ℕ) (hi : i ∈ d'.queue) :
    i < d'.clients.length := by
  cases hstep with
  | enter =>
    simp only [List.mem_append, List.mem_singleton] at hi
    simp only [List.length_append, List.length_singleton]
    rcases hi with hi | rfl
    · exact Nat.lt_succ_of_lt (h.queued i hi)
    · exact Nat.lt_succ_self _
  | serve hqueue =>
    rw [List.length_modify]
    exact h.queued i (hqueue.mem_iff.mpr (List.mem_cons_of_mem _ hi))
  | refuse e hqueue =>
    rw [List.length_modify]
    exact h.queued i (hqueue.mem_iff.mpr (List.mem_cons_of_mem _ hi))
  | expire | take | abandon | giveBack | keep => simpa using h.queued i hi
  | _ => exact h.queued i hi

theorem mailbox_modify (h : d.Sound spare) (hcl : cl ∈ d.clients.modify i f)
    (hf : ∀ cl, d.clients[i]? = some cl → cl.mailbox.length ≤ cl.answers →
      (f cl).mailbox.length ≤ (f cl).answers) : cl.mailbox.length ≤ cl.answers := by
  rcases List.mem_iff_getElem?.mp hcl with ⟨k, hk⟩
  rcases Modify.getElem?_modify_cases hk with ⟨-, hk⟩ | ⟨rfl, old, hold, rfl⟩
  · exact h.mailbox cl (List.mem_of_getElem? hk)
  · exact hf old hold (h.mailbox old (List.mem_of_getElem? hold))

theorem Step.mailbox (hstep : Step spare d d') (h : d.Sound spare) (cl : Client ε)
    (hcl : cl ∈ d'.clients) : cl.mailbox.length ≤ cl.answers := by
  cases hstep with
  | enter =>
    rcases List.mem_append.mp hcl with hcl | hcl
    · exact h.mailbox cl hcl
    · rw [List.mem_singleton.mp hcl]
      exact Nat.le_refl _
  | serve | refuse =>
    exact mailbox_modify h hcl fun old _ hold => by simpa [Client.deliver] using hold
  | take hclient hpending hbox =>
    refine mailbox_modify h hcl fun old hold hle => ?_
    rw [hclient] at hold
    cases hold
    simp only [hbox, List.length_cons] at hle
    exact Nat.le_of_succ_le hle
  | expire | abandon | giveBack | keep => exact mailbox_modify h hcl fun _ _ hold => hold
  | _ => exact h.mailbox cl hcl

/-! ### Loads and leases -/

theorem load_modify_of_eq (items : List Item) (c k : ℕ) (f : Item → Item)
    (hf : ∀ it, (f it).load = it.load) :
    ((items.modify c f)[k]?.map Item.load).getD 0 = (items[k]?.map Item.load).getD 0 := by
  rw [Modify.getElem?_modify_of_eq hf]

theorem load_modify_add {items : List Item} (hitem : items[c]? = some it) {f : Item → Item} {n : ℤ}
    (hf : ∀ it, (f it).load = it.load + n) (k : ℕ) :
    ((items.modify c f)[k]?.map Item.load).getD 0 =
      (items[k]?.map Item.load).getD 0 + if c = k then n else 0 := by
  rw [List.getElem?_modify]
  by_cases hk : c = k
  · subst hk
    simp [hitem, hf]
  · cases items[k]? <;> simp [hk]

/-- A new item has no load. -/
theorem load_append (items : List Item) (hload : it.load = 0) (k : ℕ) :
    ((items ++ [it])[k]?.map Item.load).getD 0 = (items[k]?.map Item.load).getD 0 := by
  rcases Nat.lt_trichotomy k items.length with hk | hk | hk
  · rw [List.getElem?_append_left hk]
  · subst hk
    simp [hload]
  · rw [List.getElem?_eq_none (by simpa using Nat.succ_le_of_lt hk), List.getElem?_eq_none hk.le]

theorem owed_modify {clients : List (Client ε)} (hcl : clients[i]? = some cl)
    (f : Client ε → Client ε) (k : ℕ) :
    ((clients.modify i f).map (Client.leases k)).sum + cl.leases k =
      (clients.map (Client.leases k)).sum + (f cl).leases k :=
  Modify.sum_map_modify hcl (Client.leases k) f

theorem owed_modify_of_eq (clients : List (Client ε)) (i k : ℕ) (f : Client ε → Client ε)
    (hf : ∀ cl, (f cl).leases k = cl.leases k) :
    ((clients.modify i f).map (Client.leases k)).sum = (clients.map (Client.leases k)).sum := by
  rw [Modify.map_modify_of_eq hf]

theorem Sound.client_of_queue (h : d.Sound spare) (hqueue : d.queue.Perm (i :: rest)) :
    ∃ cl, d.clients[i]? = some cl := by
  have hi : i < d.clients.length := h.queued i (hqueue.mem_iff.mpr List.mem_cons_self)
  exact ⟨d.clients[i], List.getElem?_eq_getElem hi⟩

/-- What is on the way back is an item of the desk. -/
theorem Sound.item_of_returns (h : d.Sound spare) (hc : c ∈ d.returns) :
    ∃ it, d.items[c]? = some it := by
  cases hit : d.items[c]? with
  | some it => exact ⟨it, rfl⟩
  | none =>
    have htally := h.tallied c
    have hpos := List.count_pos_iff.mpr hc
    simp only [load, hit, Option.map_none, Option.getD_none] at htally
    omega

theorem Step.tallied (hstep : Step spare d d') (h : d.Sound spare) (k : ℕ) :
    d'.load k = d'.owed k + d'.returns.count k := by
  have hk := h.tallied k
  simp only [load, owed] at hk ⊢
  cases hstep with
  | enter => simpa using hk
  | @serve i c it rest hqueue hshelf hitem =>
    rcases h.client_of_queue hqueue with ⟨cl, hcl⟩
    have howed := owed_modify hcl (.deliver (.ok c)) k
    rw [Client.leases_deliver] at howed
    rw [load_modify_add hitem (fun _ => rfl)]
    simp only [Client.lends] at howed
    by_cases hck : c = k
    · simp only [hck, beq_self_eq_true, Bool.toNat_true, if_true] at howed ⊢
      omega
    · have hne : (c == k) = false := by simpa using hck
      simp only [hne, Bool.toNat_false, if_neg hck] at howed ⊢
      omega
  | refuse e =>
    rwa [owed_modify_of_eq _ _ _ (.deliver (.error e)) fun cl => by
      simp [Client.leases_deliver, Client.lends]]
  | @settle c rest hreturns =>
    rcases h.item_of_returns (c := c) (by simp [hreturns]) with ⟨it, hitem⟩
    rw [load_modify_add hitem (fun _ => rfl)]
    rw [hreturns, List.count_cons] at hk
    by_cases hck : c = k
    · simp only [hck, beq_self_eq_true, if_true] at hk ⊢
      omega
    · have hne : (c == k) = false := by simpa using hck
      simp only [hne, Bool.false_eq_true, if_false, if_neg hck] at hk ⊢
      omega
  | arrive it _ hload => rwa [load_append _ hload]
  | drain it _ hload => rwa [load_append _ (show it.close.load = 0 from hload)]
  | discard => rwa [load_modify_of_eq _ _ _ .close fun _ => rfl]
  | fall c closed => rwa [load_modify_of_eq _ _ _ (.fall closed) fun _ => rfl]
  | relimit c n => rwa [load_modify_of_eq _ _ _ (.relimit n) fun _ => rfl]
  | expire => rwa [owed_modify_of_eq _ _ _ .expire fun _ => rfl]
  | @take i cl a rest hclient hpending hbox =>
    have howed := owed_modify hclient (.take a rest) k
    rw [Client.leases_take hpending hbox] at howed
    dsimp only
    omega
  | @abandon i cl hclient hphase =>
    have howed := owed_modify hclient (.become .abandoned) k
    have hleases := Client.leases_become k .abandoned cl
    simp only [hphase, Phase.keeps, Bool.toNat_false] at hleases
    dsimp only
    omega
  | @giveBack i c cl hclient hphase =>
    -- the lease goes from the client to the way back
    have howed := owed_modify hclient (.become .gone) k
    have hleases := Client.leases_become k .gone cl
    rw [List.count_append, List.count_singleton]
    simp only [hphase, Phase.keeps, Bool.toNat_false] at hleases
    cases hck : c == k
    all_goals
      simp only [hck, Bool.toNat_false, Bool.toNat_true] at hleases
      simp only [if_true, if_false, Bool.false_eq_true]
      omega
  | @keep i c cl hclient hphase =>
    have howed := owed_modify hclient (.become (.late c)) k
    have hleases := Client.leases_become k (.late c) cl
    simp only [hphase, Phase.keeps] at hleases
    rw [load_modify_of_eq _ _ _ .close fun _ => rfl]
    dsimp only
    omega
  | _ => exact hk

/-! ### The shelf and the record -/

theorem Step.shelved (hstep : Step spare d d') (h : d.Sound spare) (c : ℕ) (hc : c ∈ d'.shelf) :
    c < d'.items.length := by
  cases hstep with
  | arrive =>
    simp only [List.mem_append, List.mem_singleton] at hc
    simp only [List.length_append, List.length_singleton]
    rcases hc with hc | rfl
    · exact Nat.lt_succ_of_lt (h.shelved c hc)
    · exact Nat.lt_succ_self _
  | drain =>
    simp only [List.length_append, List.length_singleton]
    exact Nat.lt_succ_of_lt (h.shelved c hc)
  | discard final hshelf =>
    rw [List.length_modify]
    exact h.shelved c (hshelf.mem_iff.mpr (List.mem_cons_of_mem _ hc))
  | serve | settle | fall | relimit | keep => simpa using h.shelved c hc
  | _ => exact h.shelved c hc

theorem closings_append (log : List Event) (e : Event) (c : ℕ) :
    (log ++ [e]).countP (Event.closes c) = log.countP (Event.closes c) + (e.closes c).toNat := by
  rw [List.countP_append, List.countP_singleton]
  cases e.closes c <;> rfl

/-- The new place is the one beyond the old ones. -/
theorem once_append {n k m : ℕ} (h : m = if k < n then 1 else 0) :
    m + (n == k).toNat = if k < n + 1 then 1 else 0 := by
  rcases Nat.lt_trichotomy k n with hlt | rfl | hgt
  · have hne : (n == k) = false := by simpa using Nat.ne_of_gt hlt
    rw [h, if_pos hlt, if_pos (Nat.lt_succ_of_lt hlt), hne]
    rfl
  · simp [h]
  · have hne : (n == k) = false := by simpa using Nat.ne_of_lt hgt
    rw [h, if_neg (Nat.not_lt_of_gt hgt), if_neg (Nat.not_lt_of_le (Nat.succ_le_of_lt hgt)), hne]
    rfl

theorem Step.once (hstep : Step spare d d') (h : d.Sound spare) (k : ℕ) :
    d'.shelf.count k + d'.closings k = if k < d'.items.length then 1 else 0 := by
  have hk := h.once k
  simp only [closings] at hk ⊢
  cases hstep with
  | serve => simpa [closings_append, Event.closes] using hk
  | arrive =>
    have hnew := once_append hk
    rw [List.count_append, List.count_singleton, List.length_append, List.length_singleton, ← hnew]
    cases d.items.length == k <;> simp only [if_true, if_false, Bool.false_eq_true, Bool.toNat_true,
      Bool.toNat_false] <;> omega
  | drain =>
    rw [closings_append, List.length_append, List.length_singleton, ← once_append hk]
    exact (Nat.add_assoc _ _ _).symm
  | discard final hshelf =>
    have hcount := count_of_perm hshelf k
    rw [closings_append, List.length_modify]
    simp only [Event.closes]
    omega
  | settle | fall | relimit | keep => simpa using hk
  | _ => exact hk

/-- A change of an item that does not open it again leaves what is closed. -/
theorem closed_modify (h : d.Sound spare) {k : ℕ} {f : Item → Item}
    (hit : (d.items.modify c f)[k]? = some it) (hk : k ∉ d.shelf)
    (hf : ∀ it, it.closed = true → it.live = false → (f it).closed = true ∧ (f it).live = false) :
    it.closed = true ∧ it.live = false := by
  rcases Modify.getElem?_modify_cases hit with ⟨-, hold⟩ | ⟨-, old, hold, rfl⟩
  · exact h.closed k it hold hk
  · have hclosed := h.closed k old hold hk
    exact hf old hclosed.1 hclosed.2

theorem Step.closed (hstep : Step spare d d') (h : d.Sound spare) (k : ℕ) (it : Item)
    (hit : d'.items[k]? = some it) (hk : k ∉ d'.shelf) : it.closed = true ∧ it.live = false := by
  cases hstep with
  | serve | settle | relimit => exact closed_modify h hit hk fun _ hc hl => ⟨hc, hl⟩
  | arrive =>
    simp only [List.mem_append, List.mem_singleton, not_or] at hk
    rw [List.getElem?_append] at hit
    split_ifs at hit
    · exact h.closed k it hit hk.1
    · rw [List.getElem?_eq_none (by simp; omega)] at hit
      cases hit
  | drain new =>
    rw [List.getElem?_append] at hit
    split_ifs at hit
    · exact h.closed k it hit hk
    · have hmem := List.mem_of_getElem? hit
      rw [List.mem_singleton.mp hmem]
      exact ⟨rfl, rfl⟩
  | @discard c old rest final hshelf hitem =>
    rcases Modify.getElem?_modify_cases hit with ⟨hck, hold⟩ | ⟨-, old', -, rfl⟩
    · refine h.closed k it hold fun hmem => ?_
      rcases List.mem_cons.mp (hshelf.mem_iff.mp hmem) with heq | hmem
      · exact hck heq.symm
      · exact hk hmem
    · exact ⟨rfl, rfl⟩
  | fall => exact closed_modify h hit hk fun _ hc _ => ⟨by simp [Item.fall, hc], rfl⟩
  | keep => exact closed_modify h hit hk fun _ _ _ => ⟨rfl, rfl⟩
  | _ => exact h.closed k it hit hk

/-! ### The capacity -/

/-- An item that changes without coming to life adds nothing to those that work. -/
theorem liveCount_modify_le (shelf : List ℕ) (items : List Item) (c : ℕ) (f : Item → Item)
    (hf : ∀ it, (f it).live = true → it.live = true) :
    (shelf.countP fun k => ((items.modify c f)[k]?.map Item.live).getD false) ≤
      shelf.countP fun k => (items[k]?.map Item.live).getD false := by
  apply List.countP_mono_left
  intro k _ hlive
  rw [List.getElem?_modify] at hlive
  cases hk : items[k]? with
  | none => simp [hk] at hlive
  | some it =>
    by_cases hck : c = k
    · simp only [hk, hck, if_true, Option.map_eq_map, Option.map_some, Option.getD_some] at hlive
      exact hf it hlive
    · simpa [hk, hck] using hlive

/-- A new item adds itself at most. -/
theorem liveCount_append_le {shelf : List ℕ} {items : List Item} (it : Item)
    (hshelf : ∀ c ∈ shelf, c < items.length) :
    ((shelf ++ [items.length]).countP fun k => ((items ++ [it])[k]?.map Item.live).getD false) ≤
      (shelf.countP fun k => (items[k]?.map Item.live).getD false) + 1 := by
  rw [List.countP_append]
  apply Nat.add_le_add
  · apply List.countP_mono_left
    intro k hk hlive
    rwa [List.getElem?_append_left (hshelf k hk)] at hlive
  · exact List.countP_le_length

theorem bounded_of_le (h : d.Sound spare) (hopen : d.shut = false)
    (hlive : d'.liveCount ≤ d.liveCount) (hcoming : d'.coming ≤ d.coming) (hcap : d'.cap = d.cap) :
    d'.liveCount + d'.coming ≤ d'.cap := by
  have hd := h.bounded hopen
  omega

theorem Step.bounded (hstep : Step spare d d') (h : d.Sound spare) (hopen : d'.shut = false) :
    d'.liveCount + d'.coming ≤ d'.cap := by
  have hmodify := liveCount_modify_le d.shelf d.items
  cases hstep with
  | serve => exact bounded_of_le h hopen (hmodify _ .lend fun _ hl => hl) le_rfl rfl
  | settle => exact bounded_of_le h hopen (hmodify _ .giveBack fun _ hl => hl) le_rfl rfl
  | order n _ hcap =>
    show (d.liveCount : ℤ) + (d.coming + n : ℕ) ≤ d.cap
    omega
  | @arrive n it hcoming =>
    have hd := h.bounded hopen
    have hle := liveCount_append_le it h.shelved
    unfold liveCount live at hd ⊢
    dsimp only
    omega
  | fail hcoming =>
    exact bounded_of_le h hopen le_rfl (by rw [hcoming]; exact Nat.le_succ _) rfl
  | drain _ _ _ hshut =>
    rw [hshut] at hopen
    cases hopen
  | @discard c it rest final hshelf =>
    refine bounded_of_le h hopen ?_ le_rfl rfl
    refine le_trans ?_ (hmodify c .close fun _ hl => by cases hl)
    rw [hshelf.countP_eq]
    exact (List.sublist_cons_self c rest).countP_le
  | fall c closed =>
    exact bounded_of_le h hopen (hmodify _ (.fall closed) fun _ hl => by cases hl) le_rfl rfl
  | relimit c n => exact bounded_of_le h hopen (hmodify _ (.relimit n) fun _ hl => hl) le_rfl rfl
  | shut => cases hopen
  | keep _ _ hshut =>
    rw [hshut] at hopen
    cases hopen
  | _ => exact h.bounded hopen

theorem Step.emptied (hstep : Step spare d d') (h : d.Sound spare) (hshut : d'.shut = true) :
    d'.queue = [] ∧ d'.shelf = [] := by
  cases hstep with
  | enter hopen =>
    rw [hopen] at hshut
    cases hshut
  | serve hqueue =>
    rw [(h.emptied hshut).1] at hqueue
    cases hqueue.nil_eq
  | refuse e hqueue =>
    rw [(h.emptied hshut).1] at hqueue
    cases hqueue.nil_eq
  | arrive it _ _ hopen =>
    rw [hopen] at hshut
    cases hshut
  | discard final hshelf =>
    rw [(h.emptied hshut).2] at hshelf
    cases hshelf.nil_eq
  | shut hqueue hshelf => exact ⟨hqueue, hshelf⟩
  | _ => exact h.emptied hshut

theorem Step.recorded (hstep : Step spare d d') (h : d.Sound spare) (e : Event)
    (he : e ∈ d'.log) : e.Fits spare := by
  have hadd {e' : Event} (he : e ∈ d.log ++ [e']) (hfits : e'.Fits spare) : e.Fits spare := by
    rcases List.mem_append.mp he with he | he
    · exact h.recorded e he
    · rwa [List.mem_singleton.mp he]
  cases hstep with
  | serve _ _ _ hlive hroom => exact hadd he ⟨hlive, hroom⟩
  | drain => exact hadd he (.inl rfl)
  | discard final _ _ hspare => exact hadd he hspare
  | _ => exact h.recorded e he

/-! ### Runs -/

/-- A desk that has just opened. -/
def opened (cap : ℤ) : Desk ε := ⟨cap, [], [], [], 0, [], [], false, []⟩

theorem sound_opened {cap : ℤ} (hcap : 0 ≤ cap) : (opened cap : Desk ε).Sound spare where
  answered := by simp [opened]
  queued := by simp [opened]
  mailbox := by simp [opened]
  tallied := by simp [opened, load, owed]
  shelved := by simp [opened]
  once := by simp [opened, closings]
  closed := by simp [opened]
  bounded := by simpa [opened, liveCount] using hcap
  emptied := by simp [opened]
  recorded := by simp [opened]

theorem Step.sound (hstep : Step spare d d') (h : d.Sound spare) : d'.Sound spare where
  answered := hstep.answered h
  queued := hstep.queued h
  mailbox := hstep.mailbox h
  tallied := hstep.tallied h
  shelved := hstep.shelved h
  once := hstep.once h
  closed := hstep.closed h
  bounded := hstep.bounded h
  emptied := hstep.emptied h
  recorded := hstep.recorded h

/-- Any number of moves. -/
def Steps (spare : Item → Prop) : Desk ε → Desk ε → Prop :=
  Relation.ReflTransGen (Step spare)

theorem Steps.sound (hsteps : Steps spare d d') (h : d.Sound spare) : d'.Sound spare := by
  induction hsteps with
  | refl => exact h
  | tail _ hstep ih => exact hstep.sound ih

end Desk

end Lending

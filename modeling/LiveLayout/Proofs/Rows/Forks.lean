import LiveLayout.Proofs.Rows.Updates
/-!
The scopes of the rows of a list. A list that has rendered has put every row in a fork of its own that binds the row's
element, and all components of the row stand in that fork, down to the special bricks among them. In the same way a
fetch has put what it shows in a fork that binds what an answer brings.
-/
namespace LiveLayout

open Engine

/-- The level is a fork of another one, with just these values. -/
structure Store.Forks (σ : Store) (parent : Scope) (values : List (String × Json)) (scope : Scope) : Prop where
  below : parent < scope
  level : ∃ level, σ.level? scope = some level ∧ level.parent = some parent ∧ level.values = values

theorem Store.Forks.keep {σ τ : Store} {parent scope : Scope} {values : List (String × Json)}
    (h : σ.Forks parent values scope) (hk : σ.KeepsValues τ) : τ.Forks parent values scope := by
  obtain ⟨level, hlevel, hparent, hvalues⟩ := h.level
  obtain ⟨level', hlevel', hparent', hvalues'⟩ := hk scope level hlevel
  exact ⟨h.below, level', hlevel', hparent'.trans hparent, hvalues'.trans hvalues⟩

namespace Mounted

mutual

/-- The components of a tree with their numbers, through elements, lists and proxies, but not into special bricks. -/
def near : Mounted → List (Nat × Component)
  | .primitive _ => []
  | .element _ _ _ children => nearAll children
  | .component id _ (.proxy p) _ children => (id, .proxy p) :: nearAll children
  | .component id _ c _ _ => [(id, c)]
  | .fragment _ children => nearAll children

def nearAll : List Mounted → List (Nat × Component)
  | [] => []
  | m :: rest => m.near ++ nearAll rest

end

theorem mem_nearAll {x : Nat × Component} {ms : List Mounted} : x ∈ nearAll ms ↔ ∃ m ∈ ms, x ∈ m.near := by
  induction ms with
  | nil => simp [nearAll]
  | cons m rest ih => simp [nearAll, ih]

end Mounted

open Mounted

namespace Outline

mutual

/-- The outline of a layout leads nowhere else. -/
theorem near_of_anchors {x : Nat × Component} : (o : Outline) → (m : Mounted) → x ∈ o.anchors m → x ∈ m.near
  | .leaf _ _, m, hx => by simp [anchors] at hx
  | .node _ _ os, m, hx => by
    cases m with
    | element _ _ _ children | fragment _ children => exact nearAll_of_anchorsAll os children hx
    | primitive | component => simp [anchors] at hx
  | .proxy _ _ _ inside, m, hx => by
    cases m with
    | component id key c renders children =>
      cases c with
      | proxy p =>
        cases children with
        | nil => simp [anchors] at hx
        | cons child rest =>
          rcases List.mem_cons.1 hx with rfl | hx
          · exact List.mem_cons_self ..
          · exact List.mem_cons_of_mem _ (List.mem_append_left _ (near_of_anchors inside child hx))
      | _ => simp [anchors] at hx
    | _ => simp [anchors] at hx
  | .special _ _, m, hx => by
    cases m with
    | component id key c renders children =>
      obtain rfl := List.mem_singleton.1 hx
      cases c <;> exact List.mem_cons_self ..
    | _ => simp [anchors] at hx

theorem nearAll_of_anchorsAll {x : Nat × Component} : (os : List Outline) → (ms : List Mounted) →
    x ∈ anchorsAll os ms → x ∈ nearAll ms
  | [], ms, hx => by simp [anchorsAll] at hx
  | o :: os, [], hx => nomatch hx
  | o :: os, m :: ms, hx => by
    rw [anchorsAll, List.mem_append] at hx
    rw [nearAll, List.mem_append]
    exact hx.imp (near_of_anchors o m) (nearAll_of_anchorsAll os ms)

end

end Outline

/-- There is one for each element of a list, which is related to a new fork of the list's scope that binds the
element. -/
def ForEach.Spreads {α : Type} (lo : Scope) (σ : Store) (i : Nat) (p : Props) (R : Scope → α → Prop) (rows : List α) :
    Prop :=
  ∀ items binding template, Lists p items binding template → ∃ parent, p.rendering? = some (.interpreted i parent) ∧
    List.Forall₂ (fun item row => ∃ f, lo ≤ f ∧ σ.Forks parent [(binding, item)] f ∧ R f row) items rows

/-- All components of the tree, down to its special bricks, stand in the scope. -/
def Mounted.Inside (i : Nat) (tr : Bool) (scope : Scope) (m : Mounted) : Prop := ∀ x ∈ m.near, x.2.At i tr scope

/-- A fetch renders in the scope: in its own while it loads, and else in a fork, as given, with what an answer
brings. -/
def Fetch.Enters (f : Fetch) (Fork : List (String × Json) → Scope → Prop) (scope : Scope) : Prop :=
  scope = f.scope ∨ ∃ state layout bindings, fork? f.props state = some (layout, bindings) ∧ Fork bindings scope

/-- There is one scope in which the fetch renders, and all are related to it. -/
def Fetch.Gathers {α : Type} (f : Fetch) (Fork : List (String × Json) → Scope → Prop) (R : Scope → α → Prop)
    (rows : List α) : Prop := ∃ scope, f.Enters Fork scope ∧ ∀ row ∈ rows, R scope row

/-- If it is a list, its rows are in new forks of their own, and if it is a fetch, what it shows is in one of them. -/
structure Part.Forked (i : Nat) (tr : Bool) (lo : Scope) (σ : Store) (e : Part) : Prop where
  forEach : ∀ p, e.component = .forEach p → ForEach.Spreads lo σ i p (Inside i tr) e.children
  fetch : ∀ f, e.component = .fetch f → f.Gathers (σ.Forks f.scope) (Inside i tr) e.children

/-- Rendering has put the nodes of a proxy into its scope, and those of a list or a fetch into new forks. -/
structure Component.Puts (i : Nat) (tr : Bool) (lo : Scope) (σ : Store) (c : Component) (ns : List Node) : Prop where
  proxy : ∀ p, c = .proxy p → ∀ n ∈ ns, n.Placed (·.At i tr p.scope)
  forEach : ∀ p, c = .forEach p → ForEach.Spreads lo σ i p (fun f n => n.Placed (·.At i tr f)) ns
  fetch : ∀ f, c = .fetch f → f.Gathers (σ.Forks f.scope) (fun scope n => n.Placed (·.At i tr scope)) ns

/-- A tree stands where the node stands that it has been made of, and all lists in it have rendered into new forks. -/
structure Mounted.Stands (i : Nat) (tr : Bool) (lo : Scope) (σ : Store) (n : Node) (m : Mounted) : Prop where
  inside : ∀ f, n.Placed (·.At i tr f) → m.Inside i tr f
  parts : ∀ e ∈ m.parts, e.Forked i tr lo σ

variable {i lo : Nat} {tr : Bool} {σ τ : Store}

theorem ForEach.Spreads.keep {α : Type} {p : Props} {R : Scope → α → Prop} {rows : List α}
    (h : ForEach.Spreads lo σ i p R rows) (hk : σ.KeepsValues τ) : ForEach.Spreads lo τ i p R rows := by
  intro items binding template hlists
  obtain ⟨parent, hparent, hrows⟩ := h items binding template hlists
  exact ⟨parent, hparent, hrows.imp fun _ _ ⟨f, hlo, hf, hr⟩ => ⟨f, hlo, hf.keep hk, hr⟩⟩

theorem ForEach.Spreads.mono {α : Type} {lo' : Nat} {p : Props} {R : Scope → α → Prop} {rows : List α}
    (h : ForEach.Spreads lo σ i p R rows) (hle : lo' ≤ lo) : ForEach.Spreads lo' σ i p R rows := by
  intro items binding template hlists
  obtain ⟨parent, hparent, hrows⟩ := h items binding template hlists
  exact ⟨parent, hparent, hrows.imp fun _ _ ⟨f, hlo, hf, hr⟩ => ⟨f, Nat.le_trans hle hlo, hf, hr⟩⟩

/-- What each element of a list is related to, related on to something else. -/
theorem ForEach.Spreads.comp {α β : Type} {p : Props} {R : Scope → α → Prop} {R' : Scope → β → Prop} {S : α → β → Prop}
    {as : List α} {bs : List β} (h : ForEach.Spreads lo σ i p R as) (hs : List.Forall₂ S as bs)
    (hR : ∀ f a b, S a b → R f a → R' f b) : ForEach.Spreads lo σ i p R' bs := by
  intro items binding template hlists
  obtain ⟨parent, hparent, hrows⟩ := h items binding template hlists
  refine ⟨parent, hparent, ?_⟩
  clear h hlists
  induction hrows generalizing bs with
  | nil =>
    cases hs
    exact .nil
  | cons ha _ ih =>
    cases hs with
    | cons hab hs =>
      obtain ⟨f, hlo, hf, ha⟩ := ha
      exact .cons ⟨f, hlo, hf, hR f _ _ hab ha⟩ (ih hs)

/-- The fork a fetch renders in may be of another sort, and what is related to it may be something else. -/
theorem Fetch.Gathers.imp {α β : Type} {f : Fetch} {Fork Fork' : List (String × Json) → Scope → Prop}
    {R : Scope → α → Prop} {R' : Scope → β → Prop} {as : List α} {bs : List β} (h : f.Gathers Fork R as)
    (hFork : ∀ bindings scope, Fork bindings scope → Fork' bindings scope)
    (hR : ∀ scope, (∀ a ∈ as, R scope a) → ∀ b ∈ bs, R' scope b) : f.Gathers Fork' R' bs := by
  obtain ⟨scope, henters, hall⟩ := h
  refine ⟨scope, henters.imp_right ?_, hR scope hall⟩
  rintro ⟨state, layout, bindings, heq, hfork⟩
  exact ⟨state, layout, bindings, heq, hFork bindings scope hfork⟩

theorem Part.Forked.keep {e : Part} (h : e.Forked i tr lo σ) (hk : σ.KeepsValues τ) : e.Forked i tr lo τ :=
  ⟨fun p hp => (h.forEach p hp).keep hk, fun f hf => (h.fetch f hf).imp (fun _ _ hg => hg.keep hk) fun _ hall => hall⟩

namespace Component.Puts

variable {c : Component} {ns : List Node}

theorem keep (h : c.Puts i tr lo σ ns) (hk : σ.KeepsValues τ) : c.Puts i tr lo τ ns :=
  ⟨h.proxy, fun p hp => (h.forEach p hp).keep hk,
    fun f hf => (h.fetch f hf).imp (fun _ _ hg => hg.keep hk) fun _ hall => hall⟩

theorem mono {lo' : Nat} (h : c.Puts i tr lo σ ns) (hle : lo' ≤ lo) : c.Puts i tr lo' σ ns :=
  ⟨h.proxy, fun p hp => (h.forEach p hp).mono hle, h.fetch⟩

end Component.Puts

/-! ### Rendering -/

namespace Component

variable {s : State} {root scope : Nat} {sc : Scene}

/-- A layout rendered in a fork of a scope stands in that fork. -/
theorem fork_placed (hs : OnStage s i root sc) (hscope : scope < s.store.levels.size)
    (hroot : s.store.root scope = root) (depth : Nat) (layout : Json) (label : String)
    (bindings : List (String × Json)) :
    Ensures (Renderer.kids (Renderer.upTo depth) (.interpreted i scope) layout (some (label, bindings))) s
      fun ns s' => LiveLayout.Forked s s' ∧ ∃ f, s.store.levels.size ≤ f ∧ s'.store.Forks scope bindings f ∧
        ∀ n ∈ ns, n.Placed (·.At i sc.transport f) := by
  have hfork := LiveLayout.Forked.fork s scope label bindings
  have hlt : root < s.store.levels.size := by
    rw [← hroot]
    exact Nat.lt_of_le_of_lt (s.store.root_le scope) hscope
  have hnew : (s.store.fork scope label bindings).2.Forks scope bindings s.store.levels.size :=
    ⟨hscope, _, by rw [Store.fork, Store.level?_push, if_pos rfl], rfl, rfl⟩
  have hroot' := (s.store.root_push label bindings hscope).trans hroot
  refine .bind_run (t := { s with store := (s.store.fork scope label bindings).2 }) rfl ?_
  have htree := Renderer.tree_paints (Renderer.upTo_paints hroot' depth) layout _ rfl (hs.forked hfork hlt)
  refine htree.ensures.mono fun ns s' h => ?_
  obtain ⟨_, -, hq, hn⟩ := h
  refine ⟨hfork.trans hq.forked, _, Nat.le_refl _, ?_, ?_⟩
  · rw [hq.store]
    exact hnew
  · exact hn.map_sketch.2

theorem forEach_puts (hs : OnStage s i root sc) (hscope : scope < s.store.levels.size)
    (hroot : s.store.root scope = root) {p : Props} (hp : p.At i scope) (depth : Nat) :
    Ensures (ForEach.render (Renderer.upTo depth) p) s fun ns s' =>
      ForEach.Spreads s.store.levels.size s'.store i p (fun f n => n.Placed (·.At i sc.transport f)) ns := by
  have hlt : root < s.store.levels.size := by
    rw [← hroot]
    exact Nat.lt_of_le_of_lt (s.store.root_le scope) hscope
  by_cases hlists : ∃ items binding template, ForEach.Lists p items binding template
  · obtain ⟨items, binding, template, hlists⟩ := hlists
    obtain ⟨r, hr⟩ := Option.isSome_iff_exists.1 hlists.rendering
    obtain rfl := hp.rendering_eq hr
    simp only [ForEach.render, hr, hlists.items, hlists.binding, hlists.template]
    refine .mono (Ensures.forall₂ (s := s) (K := LiveLayout.Forked)
      (R := fun (e : Json × String) n t => ∃ f, s.store.levels.size ≤ f ∧ t.store.Forks scope [(binding, e.1)] f ∧
        n.Placed (·.At i sc.transport f)) .refl .trans
      (fun hk ⟨f, hlo, hf, hn⟩ => ⟨f, hlo, hf.keep hk.store.values, hn⟩) (items.zip (ForEach.keys [] items 0))
      fun e _ t hf => ?_) fun ns s' h items' binding' template' hlists' => ⟨scope, hr, ?_⟩
    · have hkeep := hf.store.values.keepsScopes
      refine (fork_placed (hs.forked hf hlt) (hkeep.lt_size hscope) ((hkeep.root_eq hscope).trans hroot) depth
        template "ForEach" [(binding, e.1)]).bind fun ns t' h => ?_
      obtain ⟨hf', f, hlo, hforks, hn⟩ := h
      exact .pure ⟨hf', f, Nat.le_trans hkeep.size_le hlo, hforks, Node.placed_fragment.2 hn⟩
    · obtain rfl : items = items' := by simpa [hlists.items] using hlists'.items
      obtain rfl : binding = binding' := Option.some.inj (hlists.binding.symm.trans hlists'.binding)
      have hitems : (items.zip (ForEach.keys [] items 0)).map Prod.fst = items :=
        List.map_fst_zip (Nat.le_of_eq (Scene.length_keys ..).symm)
      refine Eq.mp (congrArg (List.Forall₂ _ · ns) hitems) ?_
      exact List.forall₂_map_left_iff.2 h.2
  · exact fun _ _ _ items binding template h => absurd ⟨items, binding, template, h⟩ hlists

theorem fetch_puts (hs : OnStage s i root sc) {f : Fetch} (hscope : f.scope < s.store.levels.size)
    (hroot : s.store.root f.scope = root) (hp : f.props.At i f.scope) (self : Instance) (depth : Nat) :
    Ensures (f.render (Renderer.upTo depth) self) s fun ns s' =>
      f.Gathers (s'.store.Forks f.scope) (fun scope n => n.Placed (·.At i sc.transport scope)) ns := by
  refine .bind_run (a := s.fetches.find? (·.owner = self)) (t := s) rfl ?_
  dsimp only
  generalize ((s.fetches.find? (·.owner = self)).map FetchRecord.state).getD .pending = state
  have nothing : Ensures (pure []) s fun (ns : List Node) s' =>
      f.Gathers (s'.store.Forks f.scope) (fun scope n => n.Placed (·.At i sc.transport scope)) ns :=
    .pure ⟨f.scope, .inl rfl, nofun⟩
  cases hr : f.props.rendering? with
  | none => exact nothing
  | some r =>
    obtain rfl := hp.rendering_eq hr
    have answered (e : Json × List (String × Json)) (hfork : Fetch.fork? f.props state = some e) : Ensures
        (Renderer.kids (Renderer.upTo depth) (.interpreted i f.scope) e.1 (some ("Fetch", e.2))) s fun ns s' =>
          f.Gathers (s'.store.Forks f.scope) (fun scope n => n.Placed (·.At i sc.transport scope)) ns := by
      refine (fork_placed hs hscope hroot depth e.1 "Fetch" e.2).mono fun ns s' h => ?_
      obtain ⟨-, scope, -, hforks, hn⟩ := h
      exact ⟨scope, .inr ⟨state, e.1, e.2, hfork, hforks⟩, hn⟩
    cases state with
    | pending =>
      dsimp only
      rw [Props.render, hr]
      cases f.props.value? (if (f.props.value? "loading").isSome then "loading" else "load") with
      | none => exact nothing
      | some layout =>
        have htree := Renderer.tree_paints (Renderer.upTo_paints hroot depth) layout s rfl hs
        refine htree.ensures.mono fun ns s' h => ?_
        obtain ⟨_, -, -, hn⟩ := h
        exact ⟨f.scope, .inl rfl, hn.map_sketch.2⟩
    | succeeded response data =>
      dsimp only
      cases hfork : Fetch.fork? f.props (.succeeded response data) with
      | none => exact nothing
      | some e => exact answered e hfork
    | failed error =>
      dsimp only
      cases hfork : Fetch.fork? f.props (.failed error) with
      | none => exact nothing
      | some e => exact answered e hfork

/-- Where a component's nodes stand when it has rendered. -/
theorem render_puts (hs : OnStage s i root sc) (hscope : scope < s.store.levels.size)
    (hroot : s.store.root scope = root) {c : Component} (hc : c.At i sc.transport scope) (self : Instance)
    (depth : Nat) : Ensures (c.render (Renderer.upTo depth) self) s fun ns s' =>
      c.Puts i sc.transport s.store.levels.size s'.store ns := by
  cases c with
  | proxy p =>
    obtain ⟨-, rfl, -⟩ := id hc
    have hnode := Proxy.node_paints hc hroot (Renderer.upTo_paints hroot depth) s rfl hs
    refine .bind hnode.ensures fun n s' ⟨_, _, _, hn⟩ => .pure ⟨?_, nofun, nofun⟩
    rintro _ ⟨⟩ n' hn'
    rw [List.mem_singleton.1 hn']
    exact hn.2
  | forEach p =>
    refine (forEach_puts hs hscope hroot hc depth).mono fun ns s' h => ⟨fun _ h => (nomatch h), ?_, nofun⟩
    rintro _ ⟨⟩
    exact h
  | fetch f =>
    obtain ⟨rfl, -, hp⟩ := hc
    refine (fetch_puts hs hscope hroot hp self depth).mono fun ns s' h => ⟨fun _ h => (nomatch h), nofun, ?_⟩
    rintro _ ⟨⟩
    exact h
  | _ => exact fun _ _ _ => ⟨fun _ h => (nomatch h), nofun, nofun⟩

/-- Mounting a component leaves it where it stands. -/
theorem mount_at (c : Component) (self : Instance) (s : State) :
    Ensures (c.mount self) s fun c' _ => ∀ i tr scope, c.At i tr scope → c'.At i tr scope := by
  cases c with
  | proxy p =>
    refine .bind (Q := fun q _ => ∀ i tr scope, (proxy p).At i tr scope → (proxy q).At i tr scope) ?_
      fun q s' hq => .pure hq
    refine .bind (Q := fun _ _ => True) (fun _ _ _ => trivial) fun _ _ _ => ?_
    exact .bind (Q := fun _ _ => True) (fun _ _ _ => trivial) fun _ _ _ => .pure fun _ _ _ h => h
  | fetch f => exact .bind (Q := fun _ _ => True) (fun _ _ _ => trivial) fun _ _ _ => .pure fun _ _ _ h => h
  | probe => exact fun _ _ _ _ _ _ h => h.elim
  | _ => exact .pure fun _ _ _ h => h

end Component

/-! ### Trees -/

namespace Mounted

/-- Trees stand where the nodes stand that they have been made of. -/
abbrev StandsAll (i : Nat) (tr : Bool) (lo : Scope) (σ : Store) : List Node → List Mounted → Prop :=
  List.Forall₂ (Stands i tr lo σ)

section

variable {n : Node} {m : Mounted} {ns : List Node} {ms : List Mounted}

theorem Stands.keep (h : m.Stands i tr lo σ n) (hk : σ.KeepsValues τ) : m.Stands i tr lo τ n :=
  ⟨h.inside, fun e he => (h.parts e he).keep hk⟩

theorem StandsAll.inside (h : StandsAll i tr lo σ ns ms) {scope : Scope} (hns : ∀ n ∈ ns, n.Placed (·.At i tr scope)) :
    ∀ x ∈ nearAll ms, x.2.At i tr scope := by
  intro x hx
  obtain ⟨m, hm, hx⟩ := mem_nearAll.1 hx
  obtain ⟨n, hn, hstands⟩ := exists_of_mem_right h hm
  exact hstands.inside scope (hns n hn) x hx

theorem StandsAll.parts (h : StandsAll i tr lo σ ns ms) : ∀ e ∈ partsAll ms, e.Forked i tr lo σ := by
  intro e he
  obtain ⟨m, hm, he⟩ := mem_partsAll.1 he
  obtain ⟨n, -, hstands⟩ := exists_of_mem_right h hm
  exact hstands.parts e he

theorem Stands.primitive (v w : Json) : (Mounted.primitive w).Stands i tr lo σ (.primitive v) := ⟨fun _ _ => nofun, nofun⟩

theorem Stands.element (h : StandsAll i tr lo σ ns ms) (tag tag' : String) (key key' : Option String)
    (props props' : Props) : (Mounted.element tag' key' props' ms).Stands i tr lo σ (.element tag key props ns) :=
  ⟨fun _ hn => h.inside (Node.placed_element.1 hn), h.parts⟩

theorem Stands.fragment (h : StandsAll i tr lo σ ns ms) (key key' : Option String) :
    (Mounted.fragment key' ms).Stands i tr lo σ (.fragment key ns) :=
  ⟨fun _ hn => h.inside (Node.placed_fragment.1 hn), h.parts⟩

/-- A component that stands where another one does, with what it has rendered. -/
theorem Stands.component {c next : Component} (hat : ∀ scope, next.At i tr scope → c.At i tr scope)
    (hputs : c.Puts i tr lo σ ns) (h : StandsAll i tr lo σ ns ms) (id renders : Nat) (key key' : Option String) :
    (Mounted.component id key' c renders ms).Stands i tr lo σ (.component key next) := by
  refine ⟨fun scope hn => ?_, List.forall_mem_cons.2 ⟨?_, h.parts⟩⟩
  · have hc := hat scope (Node.placed_component.1 hn)
    cases c with
    | proxy p =>
      refine List.forall_mem_cons.2 ⟨hc, h.inside fun n hn => ?_⟩
      rw [← hc.2.1]
      exact hputs.proxy p rfl n hn
    | _ => exact List.forall_mem_singleton.2 hc
  · refine ⟨?_, ?_⟩
    · rintro p rfl
      exact (hputs.forEach p rfl).comp h fun f n m hm hn => hm.inside f hn
    · rintro f rfl
      exact (hputs.fetch f rfl).imp (fun _ _ hg => hg) fun scope hplaced m hm x hx =>
        h.inside hplaced x (mem_nearAll.2 ⟨m, hm, hx⟩)

end

variable {host root depth : Nat} {sc : Scene} {s : State}

theorem mountAll_stands (hmount : ∀ s n, Ready s host i root sc → lo ≤ s.store.levels.size →
      n.Placed (Within s.store i sc.transport root) →
      Ensures (mount host depth n) s fun m s' => Keeps s s' ∧ m.Stands i sc.transport lo s'.store n)
    (nodes : List Node) (hs : Ready s host i root sc) (hlo : lo ≤ s.store.levels.size)
    (hn : ∀ n ∈ nodes, n.Placed (Within s.store i sc.transport root)) :
    Ensures (nodes.mapM (mount host depth)) s fun ms s' =>
      Keeps s s' ∧ StandsAll i sc.transport lo s'.store nodes ms := by
  refine .forall₂ (K := Keeps) (R := fun n (m : Mounted) t => m.Stands i sc.transport lo t.store n) .refl .trans
    (fun hk h => h.keep hk.values) nodes fun n hmem t hk => ?_
  have hkeep := hk.values.keepsScopes
  exact hmount t n (hs.keep hk) (Nat.le_trans hlo hkeep.size_le) ((hn n hmem).mono fun _ hw => hw.keep hkeep)

/-- What is mounted stands where the node does. -/
theorem mount_stands (depth : Nat) : ∀ s n, Ready s host i root sc → lo ≤ s.store.levels.size →
    n.Placed (Within s.store i sc.transport root) →
    Ensures (mount host depth n) s fun m s' => Keeps s s' ∧ m.Stands i sc.transport lo s'.store n := by
  induction depth with
  | zero => exact fun _ _ _ _ _ => .endless
  | succ depth ih =>
    intro s n hs hlo hn
    cases n with
    | primitive v => exact .pure ⟨.refl s, .primitive v v⟩
    | element tag key props children =>
      exact (mountAll_stands ih children hs hlo (Node.placed_element.1 hn)).bind fun _ _ h =>
        .pure ⟨h.1, .element h.2 tag tag key key props props⟩
    | fragment key children =>
      exact (mountAll_stands ih children hs hlo (Node.placed_fragment.1 hn)).bind fun _ _ h =>
        .pure ⟨h.1, .fragment h.2 key key⟩
    | component key c =>
      obtain ⟨id, c', s₁, s₂, s₃, hnext, htrace, hmount, he⟩ := enter hs (Node.placed_component.1 hn) key
      have hat := Component.mount_at c ⟨host, id⟩ s₂ _ _ hmount
      have hs₃ := hs.keep he.keeps
      obtain ⟨scope, hscope, hroot, hc⟩ := he.within
      refine .bind_run hnext (.bind_run htrace (.bind_run hmount ?_))
      have hrender := (Component.again_yields hs₃.onStage hscope hroot hc ⟨host, id⟩ depth).ensures.and
        (Component.render_puts hs₃.onStage hscope hroot hc ⟨host, id⟩ depth)
      refine hrender.bind fun nodes s₄ h => ?_
      obtain ⟨⟨ks, -, hf, hd⟩, hputs⟩ := h
      have hk := he.keeps.trans hf.keeps
      have hsize := Nat.le_trans hlo he.keeps.values.keepsScopes.size_le
      refine (mountAll_stands ih nodes (hs.keep hk) (Nat.le_trans hlo hk.values.keepsScopes.size_le) hd.placed).bind
        fun ms s₅ h => .pure ⟨hk.trans h.1, ?_⟩
      exact .component (hat i sc.transport) ((hputs.mono hsize).keep h.1.values) h.2 id 1 key key

/-- How one node is updated to another, so that it stands where that does. -/
def Resettles (host i : Nat) (root : Scope) (sc : Scene) (lo : Scope) (update : Mounted → Node → Engine Mounted) :
    Prop :=
  ∀ s m n, Reconcile.Fits m n → Ready s host i root sc → lo ≤ s.store.levels.size →
    (∀ e ∈ m.components host, Stationed s i sc.transport root e) → n.Placed (Within s.store i sc.transport root) →
    Ensures (update m n) s fun m' s' => m'.Stands i sc.transport lo s'.store n

theorem reconcile_stands {update : Mounted → Node → Engine Mounted} (hraises : Raises host i root sc depth update)
    (hupdate : Resettles host i root sc lo update) (old : List Mounted) (nodes : List Node)
    (hs : Ready s host i root sc) (hlo : lo ≤ s.store.levels.size)
    (h : ∀ e ∈ componentsAll host old, Stationed s i sc.transport root e)
    (hn : ∀ n ∈ nodes, n.Placed (Within s.store i sc.transport root)) :
    Ensures (reconcile host depth update old nodes) s fun new s' => StandsAll i sc.transport lo s'.store nodes new := by
  have hfits := @Reconcile.fits_of_mem_assign (old.map some) 0 nodes
  have hmap := Reconcile.map_snd_assign (old.map some) 0 nodes
  have hold := @mem_of_mem_assign old nodes
  have hperm := Reconcile.perm_assign (old.map some) 0 nodes
  rw [List.filterMap_map, Function.id_comp, List.filterMap_some] at hperm
  unfold reconcile
  generalize Reconcile.assign (old.map some) 0 nodes = assigned at hfits hmap hold hperm
  obtain ⟨pairs, left⟩ := assigned
  dsimp only at *
  refine .bind (Ensures.forall₂ (K := Keeps)
    (R := fun (e : Option Mounted × Node) (m : Mounted) t => m.Stands i sc.transport lo t.store e.2) .refl .trans
    (fun hk h => h.keep hk.values) pairs fun e he t hk => ?_) fun new t hnew => ?_
  · have hkeep := hk.values.keepsScopes
    have hplaced : e.2.Placed (Within s.store i sc.transport root) := hn e.2 (hmap ▸ List.mem_map_of_mem he)
    have hplaced' := hplaced.mono fun _ hw => hw.keep hkeep
    have hlo' := Nat.le_trans hlo hkeep.size_le
    obtain ⟨m, n⟩ := e
    cases m with
    | none => exact mount_stands depth t n (hs.keep hk) hlo' hplaced'
    | some m =>
      have hm : ∀ e ∈ m.components host, Stationed t i sc.transport root e := fun e he' =>
        (h e (mem_componentsAll.2 ⟨m, hold he, he'⟩)).keep hk
      have hstep := (hraises t m n (hfits he) (hs.keep hk) hm hplaced').and
        (hupdate t m n (hfits he) (hs.keep hk) hlo' hm hplaced')
      exact hstep.mono fun m' t' h' => ⟨h'.1.keeps, h'.2⟩
  · have hleft : ∀ e ∈ componentsAll host left, e.2.OfLayout := fun e he => by
      obtain ⟨m, hm, he⟩ := mem_componentsAll.1 he
      exact (h e (mem_componentsAll.2 ⟨m, hperm.mem_iff.2 (List.mem_append_right _ hm), he⟩)).ofLayout
    obtain ⟨t', hrun, hk⟩ := unmountAll_run left t hleft
    have hall : StandsAll i sc.transport lo t'.store (pairs.map (·.2)) new := by
      rw [StandsAll, List.forall₂_map_left_iff]
      exact hnew.2.imp fun _ _ h => h.keep hk.values
    rw [hmap] at hall
    exact .bind_run hrun (.pure hall)

theorem rerender_stands {update : Mounted → Node → Engine Mounted} (hraises : Raises host i root sc depth update)
    (hupdate : Resettles host i root sc lo update) {id : Nat} (key : Option String) {c : Component} (renders : Nat)
    {children : List Mounted} (hs : Ready s host i root sc) (hlo : lo ≤ s.store.levels.size)
    (hc : Stationed s i sc.transport root (⟨host, id⟩, c))
    (h : ∀ e ∈ componentsAll host children, Stationed s i sc.transport root e) :
    Ensures (rerender host depth update id key c renders children) s fun m s' => ∀ next : Component,
      (∀ scope, next.At i sc.transport scope → c.At i sc.transport scope) →
      m.Stands i sc.transport lo s'.store (.component key next) := by
  obtain ⟨scope, hscope, hroot, hat⟩ := hc.1
  have hrender := (Component.again_yields hs.onStage hscope hroot hat ⟨host, id⟩ depth).ensures.and
    (Component.render_puts hs.onStage hscope hroot hat ⟨host, id⟩ depth)
  refine hrender.bind fun nodes s₁ h₁ => ?_
  obtain ⟨⟨ks, -, hf, hd⟩, hputs⟩ := h₁
  obtain ⟨_, s₂, htrace, hq⟩ := silent_trace (.rerendered c.name key (renders + 1)) s₁
  have hk := (hf.trans hq.forked).keeps
  have hd₂ := hd.keep (by rw [hq.store]; exact Store.KeepsForks.refl _ : s₁.store.KeepsForks s₂.store)
  have step := (reconcile_raised hraises children nodes (hs.keep hk) (fun e he => (h e he).keep hk) hd₂.placed).and
    (reconcile_stands hraises hupdate children nodes (hs.keep hk)
      (Nat.le_trans hlo hk.values.keepsScopes.size_le) (fun e he => (h e he).keep hk) hd₂.placed)
  refine .bind_run htrace (step.bind fun new s₃ hnew => .pure fun next hnext => ?_)
  have hputs' : c.Puts i sc.transport lo s₂.store nodes := by
    rw [hq.store]
    exact hputs.mono hlo
  exact .component hnext (hputs'.keep hnew.1.keeps.values) hnew.2 id (renders + 1) key key

/-- What a node has been updated to stands where that does. -/
theorem update_stands (lo depth : Nat) : Resettles host i root sc lo (update host depth) := by
  induction depth with
  | zero => exact fun _ _ _ _ _ _ _ _ => .endless
  | succ depth ih =>
    intro s m n hfits hs hlo h hn
    have hraises : Raises host i root sc depth (update host depth) := update_raises depth
    cases m with
    | primitive v =>
      cases n with
      | primitive v' => exact .pure (.primitive v' v')
      | _ => cases hfits.2
    | element tag key props old =>
      cases n with
      | element tag' key' props' new =>
        exact .bind (reconcile_stands hraises ih old new hs hlo h (Node.placed_element.1 hn)) fun _ _ hnew =>
          .pure (.element hnew tag' tag key' key' props' props')
      | _ => cases hfits.2
    | fragment key old =>
      cases n with
      | fragment key' new =>
        exact .bind (reconcile_stands hraises ih old new hs hlo h (Node.placed_fragment.1 hn)) fun _ _ hnew =>
          .pure (.fragment hnew key' key')
      | _ => cases hfits.2
    | component id key c renders children =>
      cases n with
      | component newKey next =>
        obtain rfl : key = newKey := hfits.1
        have hc := h (⟨host, id⟩, c) (List.mem_cons_self ..)
        have hchildren := fun e (he : e ∈ componentsAll host children) => h e (List.mem_cons_of_mem _ he)
        obtain ⟨_, -, -, hat⟩ := hc.1
        obtain ⟨scope, hscope, hroot, hnext⟩ := Node.placed_component.1 hn
        obtain ⟨r, s₁, hrun, hk, hr⟩ := Component.receive?_takes hat hnext s
        have hlo₁ := Nat.le_trans hlo hk.values.keepsScopes.size_le
        refine .bind_run hrun ?_
        cases r with
        | none =>
          obtain ⟨s₂, hunmount, hk₂⟩ : ∃ s₂, unmount host (.component id key c renders children) s₁ = some ((), s₂) ∧
            Keeps s₁ s₂ := unmount_run _ s₁ fun e he => (h e he).ofLayout
          have hk' := hk.trans hk₂
          have hplaced := hn.mono fun _ hw => hw.keep hk'.values.keepsScopes
          refine .bind_run hunmount ?_
          refine (mount_stands (depth + 1) s₂ (.component key next) (hs.keep hk') ?_ hplaced).mono fun _ _ h => h.2
          exact Nat.le_trans hlo hk'.values.keepsScopes.size_le
        | some c' =>
          -- The component stands wherever the next one does.
          have hat' : ∀ f, next.At i sc.transport f → c'.At i sc.transport f := by
            intro f hf
            obtain ⟨r', s', hrun', -, hr'⟩ := Component.receive?_takes hat hf s
            cases hrun.symm.trans hrun'
            exact (hr' c' rfl).1
          have hc' : Stationed s₁ i sc.transport root (⟨host, id⟩, c') :=
            ⟨Within.keep ⟨scope, hscope, hroot, hat' scope hnext⟩ hk.values.keepsScopes, hc.2.keep hk⟩
          exact (rerender_stands hraises ih key renders (hs.keep hk) hlo₁ hc' fun e he =>
            (hchildren e he).keep hk).mono fun m' s₂ hm' => hm' next hat'
      | _ => cases hfits.2

end Mounted
end LiveLayout

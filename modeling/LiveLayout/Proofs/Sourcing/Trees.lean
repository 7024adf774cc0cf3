import LiveLayout.Proofs.Mounting.Matching
import LiveLayout.Proofs.Sourcing.Drawing
/-!
Trees from the source. Whatever is mounted, updated or rendered again in a tree becomes what its interpreter renders
now, and a tree that was updated from the top has nothing else in it.
-/
namespace LiveLayout

open Engine

variable {i : Nat} {source : Option HandlerSource}

/-! ### Components -/

namespace Proxy

variable {p : Proxy}

theorem kids_cites (depth : Nat) (hi : p.interpreter = i) :
    Cites i source (p.kids (Renderer.upTo depth)) fun ns => ∀ n ∈ ns, n.From i source := by
  subst hi
  unfold kids
  split
  · refine .after (evaluate?_always p _) fun v => ?_
    split
    · exact Renderer.content_cites (Renderer.upTo_cites depth) _ _
    · exact .pure fun _ hn => nomatch hn
  · split
    · exact Renderer.tree_cites (Renderer.upTo_cites depth) _ _
    · exact .pure fun _ hn => nomatch hn

theorem node_cites (depth : Nat) (hi : p.interpreter = i) (h : p.fixed.From i source) :
    Cites i source (p.node (Renderer.upTo depth)) (Node.From i source) := by
  refine .bind (.foldlM (fun props d hprops => .after (evaluate?_always p d) fun v => ?_) h _) fun props hprops => ?_
  · split
    · exact .pure (hprops.insert trivial)
    · exact .pure (hprops.erase _)
  · refine (kids_cites depth hi).bind fun children hchildren => .after (Renderer.interpreter?_always _) fun r => ?_
    refine (Renderer.build_cites (Renderer.upTo_cites depth) hprops hchildren _ _ _).bind fun n hn => ?_
    exact .pure (hn.withKey? _)

end Proxy

section

variable {p : Props} (h : p.From i source)

include h

theorem Props.render_cites (depth : Nat) (name : String) :
    Cites i source (p.render (Renderer.upTo depth) name) fun ns => ∀ n ∈ ns, n.From i source := by
  unfold Props.render
  split
  · exact Renderer.kids_cites (Renderer.upTo_cites depth) (h.rendering? ‹_›) _ _
  · exact .pure fun _ hn => nomatch hn

theorem ForEach.render_cites (depth : Nat) :
    Cites i source (ForEach.render (Renderer.upTo depth) p) fun ns => ∀ n ∈ ns, n.From i source := by
  unfold ForEach.render
  split
  · refine .mapM _ fun e _ => ?_
    refine (Renderer.kids_cites (Renderer.upTo_cites depth) (h.rendering? ‹_›) _ _).bind fun ns hns => ?_
    exact .pure (.fragment hns)
  · exact .pure fun _ hn => nomatch hn

theorem Slot.render_cites (depth : Nat) :
    Cites i source (Slot.render (Renderer.upTo depth) p) fun ns => ∀ n ∈ ns, n.From i source := by
  unfold Slot.render
  split
  · exact Renderer.kids_cites (Renderer.upTo_cites depth) (h.rendering? ‹_›) _ _
  · exact .pure fun _ hn => nomatch hn

end

theorem Fetch.render_cites {f : Fetch} (h : f.props.From i source) (depth : Nat) (self : Instance) :
    Cites i source (f.render (Renderer.upTo depth) self) fun ns => ∀ n ∈ ns, n.From i source := by
  refine .after (fetchRecord?_always _) fun record => ?_
  dsimp only
  split
  · exact .pure fun _ hn => nomatch hn
  · split
    · exact Props.render_cites h depth _
    · split
      · exact Renderer.kids_cites (Renderer.upTo_cites depth) (h.rendering? ‹_›) _ _
      · exact .pure fun _ hn => nomatch hn

namespace Component

variable {c : Component} {self : Instance}

theorem mount_cites (h : c.From i source) : Cites i source (c.mount self) (Component.From i source) := by
  cases c with
  | proxy p =>
    refine .bind (Q := fun q : Proxy => q.interpreter = i ∧ q.fixed.From i source) ?_ fun q hq => .pure hq
    exact .after (Proxy.changeSubscriptions_always _ _) fun _ => .after (.trace _) fun _ => .pure h
  | fetch f => exact .after (f.mount_always putFetch_asks network_asks (invalidate_asks self)) fun _ => .pure h
  | probe | plain => exact h.elim
  | _ => exact .pure h

/-- A component takes what is from the source from the next one. -/
theorem receive?_cites {next : Component} (h : next.From i source) :
    Cites i source (c.receive? next) fun found => ∀ c' ∈ found, c'.From i source := by
  unfold receive?
  split
  · refine .bind (Q := fun found => ∀ r ∈ found, r.interpreter = i ∧ r.fixed.From i source) ?_ fun found hfound => ?_
    · unfold Proxy.receive?
      split
      · exact .pure fun _ hr => nomatch hr
      · have hnext (r : Proxy) (hr : r.interpreter = i ∧ r.fixed.From i source) :
            ∀ r' ∈ some r, r'.interpreter = i ∧ r'.fixed.From i source := by
          intro r' hr'
          cases hr'
          exact hr
        split
        · refine .after (Proxy.changeSubscriptions_always _ _) fun _ => ?_
          exact .after (Proxy.changeSubscriptions_always _ _) fun _ => .pure (hnext _ h)
        · exact .pure (hnext _ h)
    · refine .pure fun c' hc' => ?_
      obtain ⟨r, hr, rfl⟩ := Option.map_eq_some_iff.1 hc'
      exact hfound r hr
  case h_6 =>
    split
    · exact .after (.emit rfl) fun _ => .pure fun _ hc => nomatch hc
    · split
      · exact h.elim
      · exact .after (.emit rfl) fun _ => .pure fun _ hc => nomatch hc
  case h_7 => exact .pure fun _ hc => nomatch hc
  all_goals
    refine .pure fun c' hc' => ?_
    cases hc'
    exact h

theorem render_cites (h : c.From i source) (depth : Nat) :
    Cites i source (c.render (Renderer.upTo depth) self) fun ns => ∀ n ∈ ns, n.From i source := by
  cases c with
  | proxy p =>
    refine (p.node_cites depth h.1 h.2).bind fun n hn => .pure fun n' hn' => ?_
    obtain rfl := List.mem_singleton.1 hn'
    exact hn
  | conditional props => exact Props.render_cites h depth _
  | forEach props => exact ForEach.render_cites h depth
  | slot props => exact Slot.render_cites h depth
  | fetch f => exact Fetch.render_cites h depth self
  | probe | plain => exact h.elim

end Component

/-! ### Trees -/

/-- All in the tree is from the source. -/
inductive Mounted.From (i : Nat) (source : Option HandlerSource) : Mounted → Prop
  | primitive (v : Json) : From i source (.primitive v)
  | element {tag : String} {key : Option String} {props : Props} {children : List Mounted}
      (own : props.From i source) (inner : ∀ m ∈ children, From i source m) :
      From i source (.element tag key props children)
  | component {id : Nat} {key : Option String} {c : Component} {renders : Nat} {children : List Mounted}
      (own : c.From i source) (inner : ∀ m ∈ children, From i source m) :
      From i source (.component id key c renders children)
  | fragment {key : Option String} {children : List Mounted} (inner : ∀ m ∈ children, From i source m) :
      From i source (.fragment key children)

namespace Mounted

variable {host id : Nat}

theorem mount_cites (depth : Nat) {n : Node} (h : n.From i source) :
    Cites i source (mount host depth n) (Mounted.From i source) := by
  induction depth generalizing n with
  | zero => exact .endless
  | succ depth ih =>
    have hall {ns : List Node} (hns : ∀ n ∈ ns, n.From i source) :
        Cites i source (ns.mapM (mount host depth)) fun ms => ∀ m ∈ ms, m.From i source :=
      .mapM ns fun n hn => ih (hns n hn)
    cases h with
    | primitive v => exact .pure (.primitive v)
    | element own inner => exact (hall inner).bind fun ms hms => .pure (.element own hms)
    | fragment inner => exact (hall inner).bind fun ms hms => .pure (.fragment hms)
    | component own =>
      refine .after (nextInstance_asks host) fun self => .after (.trace _) fun _ => ?_
      refine (Component.mount_cites own).bind fun c' hc' => (Component.render_cites hc' depth).bind fun ns hns => ?_
      exact (hall hns).bind fun ms hms => .pure (.component hc' hms)

section

variable {update : Mounted → Node → Engine Mounted}
  (hupdate : ∀ m {n}, Node.From i source n → Cites i source (update m n) (Mounted.From i source))

include hupdate

theorem reconcile_cites (depth : Nat) (old : List Mounted) {new : List Node} (h : ∀ n ∈ new, n.From i source) :
    Cites i source (reconcile host depth update old new) fun ms => ∀ m ∈ ms, m.From i source := by
  unfold reconcile
  dsimp only
  refine .bind (.mapM (R := Mounted.From i source) _ fun e he => ?_) fun ms hms =>
    .after (unmountAll_asks host _) fun _ => .pure hms
  have hmem := List.mem_map_of_mem (f := Prod.snd) he
  rw [Reconcile.map_snd_assign] at hmem
  split
  · exact hupdate _ (h _ hmem)
  · exact mount_cites depth (h _ hmem)

theorem rerender_cites (depth id : Nat) (key : Option String) {c : Component} (h : c.From i source) (renders : Nat)
    (children : List Mounted) :
    Cites i source (rerender host depth update id key c renders children) (Mounted.From i source) := by
  refine (Component.render_cites h depth).bind fun ns hns => .after (.trace _) fun _ => ?_
  exact (reconcile_cites hupdate depth children hns).bind fun ms hms => .pure (.component h hms)

end

/-- An update leaves nothing of what was there but its numbers. -/
theorem update_cites (depth : Nat) (m : Mounted) {n : Node} (h : n.From i source) :
    Cites i source (update host depth m n) (Mounted.From i source) := by
  induction depth generalizing m n with
  | zero => exact .endless
  | succ depth ih =>
    unfold update
    split
    · exact .pure (.primitive _)
    · cases h with
      | element own inner => exact (reconcile_cites ih depth _ inner).bind fun ms hms => .pure (.element own hms)
    · cases h with
      | fragment inner => exact (reconcile_cites ih depth _ inner).bind fun ms hms => .pure (.fragment hms)
    · cases h with
      | component own =>
        refine (Component.receive?_cites own).bind fun found hfound => ?_
        split
        · exact rerender_cites ih depth _ _ (hfound _ rfl) _ _
        · exact .after (unmount_asks host _) fun _ => mount_cites (depth + 1) (.component own)
    · exact .after (unmount_asks host _) fun _ => mount_cites (depth + 1) h

/-! ### Parts of trees -/

mutual

theorem From.find? {old : Mounted} : (m : Mounted) → m.From i source → m.find? id = some old → old.From i source
  | .primitive _, _, hf => nomatch hf
  | .element _ _ _ children, .element _ inner, hf => From.findAll? children inner hf
  | .component j key c renders children, .component own inner, hf => by
    unfold Mounted.find? at hf
    split at hf
    · cases hf
      exact .component own inner
    · exact From.findAll? children inner hf
  | .fragment _ children, .fragment inner, hf => From.findAll? children inner hf

theorem From.findAll? {old : Mounted} : (ms : List Mounted) → (∀ m ∈ ms, m.From i source) →
    findAll? id ms = some old → old.From i source
  | [], _, hf => nomatch hf
  | m :: rest, h, hf => by
    rw [List.forall_mem_cons] at h
    rcases Option.or_eq_some_iff.1 hf with hf | ⟨-, hf⟩
    · exact From.find? m h.1 hf
    · exact From.findAll? rest h.2 hf

end

mutual

theorem From.replace {next : Mounted} (hnext : next.From i source) : (m : Mounted) → m.From i source →
    (replace id next m).From i source
  | .primitive v, _ => .primitive v
  | .element _ _ _ children, .element own inner => .element own (From.replaceAll hnext children inner)
  | .component j key c renders children, .component own inner => by
    unfold Mounted.replace
    split
    · exact hnext
    · exact .component own (From.replaceAll hnext children inner)
  | .fragment _ children, .fragment inner => .fragment (From.replaceAll hnext children inner)

theorem From.replaceAll {next : Mounted} (hnext : next.From i source) : (ms : List Mounted) →
    (∀ m ∈ ms, m.From i source) → ∀ m ∈ replaceAll id next ms, m.From i source
  | [], _ => fun _ hm => nomatch hm
  | m :: rest, h => by
    rw [List.forall_mem_cons] at h
    exact List.forall_mem_cons.2 ⟨From.replace hnext m h.1, From.replaceAll hnext rest h.2⟩

end

end Mounted

/-! ### Hosts -/

namespace Host

/-- A tree that is rendered from the top is from the source, whatever it was before. -/
theorem render_cites (h : Host) {nodes : List Node} (hnodes : ∀ n ∈ nodes, n.From i source) :
    Cites i source (h.render nodes) fun h' => ∀ m ∈ h'.roots, m.From i source :=
  (Mounted.reconcile_cites (Mounted.update_cites depthLimit) depthLimit h.roots hnodes).bind fun _ hms => .pure hms

variable {h : Host} (hroots : ∀ m ∈ h.roots, m.From i source)

include hroots

theorem rerenderAll_cites (ids : List Nat) (count : Nat) :
    Cites i source (h.rerenderAll count ids) fun res => ∀ m ∈ res.1.roots, m.From i source := by
  induction ids generalizing h count with
  | nil => exact .pure hroots
  | cons id rest ih =>
    unfold rerenderAll
    split
    · obtain ⟨⟩ | ⟨⟩ | ⟨own, inner⟩ := Mounted.From.findAll? _ hroots ‹_›
      refine (Mounted.rerender_cites (Mounted.update_cites depthLimit) depthLimit _ _ own _ _).bind fun m hm => ?_
      exact ih (Mounted.From.replaceAll hm _ hroots) _
    · exact .after (.trace _) fun _ => ih hroots count

theorem flushRounds_cites (rounds : Nat) (count : Nat) :
    Cites i source (h.flushRounds count rounds) fun res => ∀ m ∈ res.1.roots, m.From i source := by
  have hqueue (h : Host) : Always (Asks (· = i)) h.queue := .bind (.bind .get fun _ => .pure _) fun _ => .pure _
  have hclear (h : Host) : Always (Asks (· = i)) h.clearQueue := modifyHost_asks _ _
  induction rounds generalizing h count with
  | zero =>
    refine .after (hqueue h) fun pending => .after (hclear h) fun _ => ?_
    split
    · exact .after (.log _) fun _ => .pure hroots
    · exact .pure hroots
  | succ rounds ih =>
    refine .after (hqueue h) fun pending => .after (hclear h) fun _ => ?_
    split
    · exact .pure hroots
    · exact (rerenderAll_cites hroots _ count).bind fun res hres => ih hres _

theorem flush_cites : Cites i source h.flush fun res => ∀ m ∈ res.1.roots, m.From i source :=
  flushRounds_cites hroots roundLimit 0

end Host

theorem Host.drop_asks {who : Nat → Prop} (h : Host) : Always (Asks who) h.drop := by
  have hclear : Always (Asks who) h.clear :=
    (Mounted.unmountAll_asks h.id h.roots).bind fun _ => (modifyHost_asks _ _).bind fun _ => .pure _
  exact hclear.bind fun _ => .modify fun _ => .of_same rfl rfl

end LiveLayout

import Parley.Interpreter.Script
import Parley.Proofs.Run

/-!
# Whom a publish tells

A listener that is told may subscribe, unsubscribe, clear the bus, remove an owner's listeners and
publish in turn, and may fail.  What that comes to is said here without the bus: subscriptions
are one list in the order in which they were made (`Subscriptions`), a change of them is an edit
of the list (`Subscriptions.edit`), and a publish tells those who are in line for its kind when it
begins, one after the other, up to the first that fails (`TellsLine`).  Who stands in line is read
once; the list that the next publish reads is the one that the edits have made of it.

The bus keeps a table of lines instead, appends to some of them in place and puts new ones in the
place of others.  It agrees with the list after every edit (`registers_edit`).  From that,
publishing with any bus and any host whose listeners ask for nothing but the bus is telling, in
both directions: what a publish comes to is a telling (`tells_of_exec`), and every telling is
what a publish comes to once callbacks may nest deep enough (`yields_of_tells`).
-/

namespace Parley

/-! ## Subscriptions -/

/-- A change of the subscriptions. -/
inductive Bus.Edit where
  | subscribe (k : Notice.Kind) (l : Listener)
  | unsubscribe (k : Notice.Kind) (l : Listener)
  | unregister (o : Owner)
  | clear

def Bus.edit (b : Bus) : Bus.Edit → Bus
  | .subscribe k l => b.subscribe k l
  | .unsubscribe k l => b.unsubscribe k l
  | .unregister o => b.unregister o
  | .clear => b.clear

/-- Subscriptions in the order in which they were made. -/
abbrev Subscriptions := List (Notice.Kind × Listener)

namespace Subscriptions

/-- The listeners in line for a kind. -/
def line (subs : Subscriptions) (k : Notice.Kind) : List Listener :=
  (subs.filter fun s => s.1 = k).map Prod.snd

/-- A new one goes to the end; removed are all of a listener to a kind, or of an owner. -/
def edit (subs : Subscriptions) : Bus.Edit → Subscriptions
  | .subscribe k l => subs ++ [(k, l)]
  | .unsubscribe k l => subs.filter fun s => ¬ (s.1 = k ∧ s.2.is l)
  | .unregister o => subs.filter fun s => !s.2.boundTo o
  | .clear => []

variable {subs : Subscriptions} {k : Notice.Kind}

theorem line_append (subs more : Subscriptions) (k : Notice.Kind) :
    line (subs ++ more) k = line subs k ++ line more k := by
  rw [line, List.filter_append, List.map_append, line, line]

theorem line_map (ls : List Listener) (k k' : Notice.Kind) :
    line (ls.map fun l => (k', l)) k = if k' = k then ls else [] := by
  rw [line, List.filter_map, List.map_map]
  split
  · next hk => simp [Function.comp_def, hk]
  · next hk => simp [Function.comp_def, hk]

theorem line_filter {p : Notice.Kind × Listener → Bool} {q : Listener → Bool}
    (h : ∀ l, p (k, l) = q l) : line (subs.filter p) k = (line subs k).filter q := by
  rw [line, line, List.filter_map, List.filter_filter, List.filter_filter]
  congr 1
  apply List.filter_congr
  rintro ⟨k', l⟩ -
  by_cases hk : k' = k
  · simp [hk, h]
  · simp [hk]

end Subscriptions

namespace Bus

open Subscriptions (line)

variable {b : Bus} {subs : Subscriptions}

/-- The bus has everybody in line as the list of subscriptions has. -/
def Registers (b : Bus) (subs : Subscriptions) : Prop := ∀ k, b.listeners k = line subs k

/-- The subscriptions of a bus, kind after kind. -/
def subscriptions (b : Bus) : Subscriptions :=
  Notice.Kind.all.flatMap fun k => (b.listeners k).map fun l => (k, l)

theorem registers_subscriptions (b : Bus) : b.Registers b.subscriptions := by
  intro k
  have hline : ∀ ks : List Notice.Kind, line (ks.flatMap fun k' => (b.listeners k').map fun l =>
      (k', l)) k = ks.flatMap fun k' => if k' = k then b.listeners k' else [] := by
    intro ks
    induction ks with
    | nil => rfl
    | cons k' ks ih =>
        rw [List.flatMap_cons, Subscriptions.line_append, Subscriptions.line_map, ih,
          List.flatMap_cons]
  rw [subscriptions, hline]
  cases k <;> simp [Notice.Kind.all]

theorem listeners_subscribe_of_ne {k k' : Notice.Kind} (hne : k' ≠ k) (l : Listener) :
    (b.subscribe k' l).listeners k = b.listeners k := by
  rw [listeners, subscribe, Keyed.get?_insert_of_exact (Keyed.exact_of_lawful k) hne, listeners]

theorem listeners_unsubscribe (b : Bus) (k k' : Notice.Kind) (l : Listener) :
    (b.unsubscribe k' l).listeners k =
      (b.listeners k).filter fun m => ¬ (k = k' ∧ m.is l) := by
  have hother : k' ≠ k → ((b.listeners k).filter fun m => ¬ (k = k' ∧ m.is l)) = b.listeners k :=
    fun hk => List.filter_eq_self.mpr (by simp [Ne.symm hk])
  unfold unsubscribe
  split
  · by_cases hk : k' = k
    · subst hk
      rw [listeners, Keyed.get?_insert_self]
      simp
    · rw [hother hk, listeners, Keyed.get?_insert_of_exact (Keyed.exact_of_lawful k) hk, listeners]
  · next hmissing =>
      -- a kind that nobody ever subscribed to has nobody in line
      by_cases hk : k' = k
      · subst hk
        have hnone : b.table.get? k' = none := by
          rw [← Option.not_isSome_iff_eq_none, Keyed.isSome_get?]
          exact hmissing
        simp [listeners, hnone]
      · rw [hother hk]

theorem listeners_unregister (b : Bus) (k : Notice.Kind) (o : Owner) :
    (b.unregister o).listeners k = (b.listeners k).filter fun l => !l.boundTo o := by
  unfold unregister listeners Keyed.get?
  rw [List.find?_map, Option.map_map]
  show (Option.map _ (b.table.entries.find? fun e => e.1 == k)).getD [] = _
  cases b.table.entries.find? fun e => e.1 == k <;> rfl

/-- The bus is edited as the list is. -/
theorem registers_edit (h : b.Registers subs) (e : Edit) :
    (b.edit e).Registers (Subscriptions.edit subs e) := by
  intro k
  cases e with
  | subscribe k' l =>
      rw [edit, Subscriptions.edit, Subscriptions.line_append, ← h k]
      by_cases hk : k' = k
      · subst hk
        rw [listeners_subscribe]
        simp [line]
      · rw [listeners_subscribe_of_ne hk]
        simp [line, hk]
  | unsubscribe k' l =>
      rw [edit, Subscriptions.edit, Subscriptions.line_filter fun _ => rfl, ← h k]
      exact listeners_unsubscribe b k k' l
  | unregister o =>
      rw [edit, Subscriptions.edit, Subscriptions.line_filter fun _ => rfl, ← h k]
      exact listeners_unregister b k o
  | clear => rfl

end Bus

/-! ## Tellings -/

/-- What listeners that ask for nothing but the bus can change. -/
structure Delivery (H : Type) where
  host : H
  subs : Subscriptions
  journal : List Record
  published : List Notice

namespace Bus.Edit

/-- The request for a change. -/
def request {I : Type} : Edit → Request I
  | .subscribe k l => .subscribe k l
  | .unsubscribe k l => .unsubscribe k l
  | .unregister o => .unregister o
  | .clear => .clearBus

end Bus.Edit

/-- What an operation without an answer is answered with. -/
def answered (x : Except Fault Unit) : Except Fault Answer := x.map fun _ => .done

section
variable {H I : Type}

mutual

/-- A listener runs: it ends, edits the subscriptions, or publishes and goes on by what became of
that. -/
inductive Runs (react : Host H I) :
    Script H I → Delivery H → Except Fault Datum → Delivery H → Prop
  | finish {host : H} {result : Except Fault Datum} {d : Delivery H} :
      Runs react (.finish host result) d result { d with host }
  | edit {host : H} {e : Bus.Edit} {next : H → Except Fault Answer → Script H I}
      {d d' : Delivery H} {result : Except Fault Datum} :
      Runs react (next host (.ok .done))
        { d with
          host
          subs := d.subs.edit e
          journal := d.journal ++ [.nested (.ok .done)] } result d' →
      Runs react (.request host e.request next) d result d'
  | publish {host : H} {n : Notice} {next : H → Except Fault Answer → Script H I}
      {d d₁ d' : Delivery H} {told : List Listener} {x : Except Fault Unit}
      {result : Except Fault Datum} :
      TellsLine react n (d.subs.line n.kind) { d with host, published := d.published ++ [n] } told x
        d₁ →
      Runs react (next d₁.host (answered x))
        { d₁ with journal := d₁.journal ++ [.nested (answered x)] } result d' →
      Runs react (.request host (.publish n) next) d result d'

/-- Those in line are told of a notice, one after the other.  The first that fails is the last
that is told, and its fault is the end. -/
inductive TellsLine (react : Host H I) :
    Notice → List Listener → Delivery H → List Listener → Except Fault Unit → Delivery H → Prop
  | nobody {n : Notice} {d : Delivery H} : TellsLine react n [] d [] (.ok ()) d
  | heard {n : Notice} {l : Listener} {ls told : List Listener} {d d₁ d' : Delivery H}
      {answer : Datum} {x : Except Fault Unit} :
      Runs react (react d.host (.listener l n))
        { d with journal := d.journal ++ [.called (.listener l n)] } (.ok answer) d₁ →
      TellsLine react n ls d₁ told x d' →
      TellsLine react n (l :: ls) d (l :: told) x d'
  | failed {n : Notice} {l : Listener} {ls : List Listener} {d d' : Delivery H} {f : Fault} :
      Runs react (react d.host (.listener l n))
        { d with journal := d.journal ++ [.called (.listener l n)] } (.error f) d' →
      TellsLine react n (l :: ls) d [l] (.error f) d'

end

variable {react : Host H I} {n : Notice} {ls told : List Listener} {d d' : Delivery H}
  {x : Except Fault Unit}

/-- Without a fault everybody in line was told, once and in the order of the line; with one,
everybody up to the one that failed. -/
theorem TellsLine.told_eq (h : TellsLine react n ls d told x d') :
    (x = .ok () → told = ls) ∧
      ∀ f, x = .error f → ∃ before l after, ls = before ++ l :: after ∧ told = before ++ [l] := by
  induction ls generalizing d told with
  | nil =>
      cases h
      exact ⟨fun _ => rfl, nofun⟩
  | cons l ls ih =>
      cases h with
      | heard _ hrest =>
          obtain ⟨hok, herror⟩ := ih hrest
          refine ⟨fun hx => by rw [hok hx], fun f hx => ?_⟩
          obtain ⟨before, m, after, rfl, rfl⟩ := herror f hx
          exact ⟨l :: before, m, after, rfl, rfl⟩
      | failed _ => exact ⟨nofun, fun _ _ => ⟨[], l, ls, rfl, rfl⟩⟩

end

/-- The world as a delivery leaves it. -/
def World.delivered {H I : Type} (w : World H I) (d : Delivery H) (b : Bus) : World H I :=
  { w with
    host := d.host
    bus := b
    journal := d.journal
    published := d.published }

/-- The world `w` is as the delivery says, and for the rest as `w₀`. -/
def Stands {H I : Type} (w₀ : World H I) (d : Delivery H) (w : World H I) : Prop :=
  ∃ b : Bus, b.Registers d.subs ∧ w = w₀.delivered d b

namespace Stands

variable {H I : Type} {w₀ w : World H I} {d : Delivery H}

theorem line (h : Stands w₀ d w) (k : Notice.Kind) : w.bus.listeners k = d.subs.line k := by
  obtain ⟨b, hb, rfl⟩ := h
  exact hb k

theorem withHost (h : Stands w₀ d w) (host : H) :
    Stands w₀ { d with host } { w with host } := by
  obtain ⟨b, hb, rfl⟩ := h
  exact ⟨b, hb, rfl⟩

theorem noting (h : Stands w₀ d w) (r : Record) :
    Stands w₀ { d with journal := d.journal ++ [r] } { w with journal := w.journal ++ [r] } := by
  obtain ⟨b, hb, rfl⟩ := h
  exact ⟨b, hb, rfl⟩

theorem sending (h : Stands w₀ d w) (n : Notice) :
    Stands w₀ { d with published := d.published ++ [n] }
      { w with published := w.published ++ [n] } := by
  obtain ⟨b, hb, rfl⟩ := h
  exact ⟨b, hb, rfl⟩

theorem editing (h : Stands w₀ d w) (e : Bus.Edit) :
    Stands w₀ { d with subs := d.subs.edit e } { w with bus := w.bus.edit e } := by
  obtain ⟨b, hb, rfl⟩ := h
  exact ⟨b.edit e, Bus.registers_edit hb e, rfl⟩

end Stands

/-- Is the request one of the bus? -/
def Request.concernsBus {I : Type} : Request I → Bool
  | .subscribe .. | .unsubscribe .. | .publish _ | .clearBus | .unregister _ => true
  | _ => false

theorem Request.concernsBus_cases {I : Type} {r : Request I} (h : r.concernsBus = true) :
    (∃ e : Bus.Edit, r = e.request) ∨ ∃ n, r = .publish n := by
  cases r with
  | subscribe k l => exact .inl ⟨.subscribe k l, rfl⟩
  | unsubscribe k l => exact .inl ⟨.unsubscribe k l, rfl⟩
  | unregister o => exact .inl ⟨.unregister o, rfl⟩
  | clearBus => exact .inl ⟨.clear, rfl⟩
  | publish n => exact .inr ⟨n, rfl⟩
  | _ => cases h

/-- Whatever its listeners are told, they ask for nothing but the bus. -/
def Host.KeepsToBus {H I : Type} (react : Host H I) : Prop :=
  ∀ host l n, (react host (.listener l n)).Abides (fun r => r.concernsBus = true) fun _ => True

namespace Session

open Act

variable {H I L : Type} {ip : Interpreter I L} {react : Host H I} {w₀ w w' : World H I}
  {d d' : Delivery H} {n : Notice}

/-! ## From what happens to tellings -/

theorem yields_edit {fuel : Nat} {e : Bus.Edit} {a : Except Fault Answer} :
    Yields (exec ip react (fuel + 1) e.request) w a w' ↔
      a = .ok .done ∧ w' = { w with bus := w.bus.edit e } := by
  cases e <;> exact yields_modify_bind.trans yields_pure

theorem yields_publish {fuel : Nat} {a : Except Fault Answer} :
    Yields (exec ip react (fuel + 1) (.publish n)) w a w' ↔
      ∃ x, Yields ((w.bus.listeners n.kind).forM fun l =>
          discard (calls ip react fuel (.listener l n)))
        { w with published := w.published ++ [n] } x w' ∧ a = answered x :=
  yields_bind_pure

/-- What publishes of that depth come to, for a world like `w₀`, are tellings. -/
def Telling (ip : Interpreter I L) (react : Host H I) (w₀ : World H I) (fuel : Nat) : Prop :=
  ∀ n d w a w', Stands w₀ d w → Yields (exec ip react fuel (.publish n)) w a w' →
    ∃ told x d', TellsLine react n (d.subs.line n.kind) { d with published := d.published ++ [n] }
      told x d' ∧ a = answered x ∧ Stands w₀ d' w'

section
variable {fuel : Nat} (hpublish : Telling ip react w₀ fuel)
include hpublish

theorem runs_of_runScript {s : Script H I} {result : Except Fault Datum}
    (hs : s.Abides (fun r => r.concernsBus = true) fun _ => True) (hstands : Stands w₀ d w)
    (h : Yields (runScript (exec ip react fuel) s) w result w') :
    ∃ d', Runs react s d result d' ∧ Stands w₀ d' w' := by
  induction s generalizing d w with
  | finish host result' =>
      obtain ⟨rfl, rfl⟩ := yields_finish.mp h
      exact ⟨_, .finish, hstands.withHost host⟩
  | request host r next ih =>
      obtain ⟨hr, hnext⟩ := hs
      obtain ⟨a, u, hanswer, hrest⟩ := yields_request.mp h
      rcases Request.concernsBus_cases hr with ⟨e, rfl⟩ | ⟨n, rfl⟩
      · obtain ⟨fuel, rfl, -⟩ := yields_exec.mp hanswer
        obtain ⟨rfl, rfl⟩ := yields_edit.mp hanswer
        obtain ⟨d', hruns, hstands'⟩ := ih _ _ (hnext _ _)
          (((hstands.withHost host).editing e).noting _) hrest
        exact ⟨d', .edit hruns, hstands'⟩
      · obtain ⟨told, x, d₁, htells, rfl, b, hb, rfl⟩ :=
          hpublish n _ _ _ _ (hstands.withHost host) hanswer
        obtain ⟨d', hruns, hstands'⟩ := ih _ _ (hnext _ _) (Stands.noting ⟨b, hb, rfl⟩ _) hrest
        exact ⟨d', .publish htells hruns, hstands'⟩

theorem tells_of_forM (hreact : react.KeepsToBus) {ls : List Listener} {x : Except Fault Unit}
    (hstands : Stands w₀ d w)
    (h : Yields (ls.forM fun l => discard (calls ip react fuel (.listener l n))) w x w') :
    ∃ told d', TellsLine react n ls d told x d' ∧ Stands w₀ d' w' := by
  have hcall : ∀ {l : Listener} {d w u y}, Stands w₀ d w →
      Yields (calls ip react fuel (.listener l n)) w y u →
      ∃ d', Runs react (react d.host (.listener l n))
        { d with journal := d.journal ++ [.called (.listener l n)] } y d' ∧ Stands w₀ d' u := by
    rintro l d _ u y ⟨b, hb, rfl⟩ hcall
    have hscript := yields_callHost.mp hcall
    exact runs_of_runScript hpublish (hreact d.host l n) (Stands.noting ⟨b, hb, rfl⟩ _) hscript
  induction ls generalizing d w with
  | nil =>
      obtain ⟨rfl, rfl⟩ := yields_pure.mp h
      exact ⟨_, _, .nobody, hstands⟩
  | cons l ls ih =>
      rcases yields_bind.mp h with ⟨_, u, htold, hrest⟩ | ⟨f, htold, rfl⟩
      · obtain ⟨y, hy, hanswer⟩ := yields_discard.mp htold
        cases y with
        | error f => cases hanswer
        | ok answer =>
            obtain ⟨d₁, hruns, hstands₁⟩ := hcall hstands hy
            obtain ⟨told, d', htells, hstands'⟩ := ih hstands₁ hrest
            exact ⟨_, d', .heard hruns htells, hstands'⟩
      · obtain ⟨y, hy, hanswer⟩ := yields_discard.mp htold
        cases y with
        | ok answer => cases hanswer
        | error f =>
            cases hanswer
            obtain ⟨d', hruns, hstands'⟩ := hcall hstands hy
            exact ⟨_, d', .failed hruns, hstands'⟩

end

/-- Whatever a publish comes to is a telling. -/
theorem tells_of_exec (hreact : react.KeepsToBus) (w₀ : World H I) (fuel : Nat) :
    Telling ip react w₀ fuel := by
  induction fuel with
  | zero =>
      intro n d w a w' _ h
      exact (not_yields_endless h).elim
  | succ fuel ih =>
      intro n d w a w' hstands h
      obtain ⟨x, hx, rfl⟩ := yields_publish.mp h
      rw [hstands.line] at hx
      obtain ⟨told, d', htells, hstands'⟩ := tells_of_forM ih hreact (hstands.sending n) hx
      exact ⟨told, x, d', htells, rfl, hstands'⟩

/-! ## From tellings to what happens -/

theorem yields_told {fuel : Nat} {l : Listener} {y : Except Fault Datum} {depth : Nat}
    (hstands : Stands w₀ d w) (hle : depth ≤ fuel)
    (hruns : ∀ fuel, depth ≤ fuel → ∀ w,
      Stands w₀ { d with journal := d.journal ++ [.called (.listener l n)] } w →
        ∃ w', Yields (runScript (exec ip react fuel) (react d.host (.listener l n))) w y w' ∧
          Stands w₀ d' w') :
    ∃ w', Yields (discard (calls ip react fuel (.listener l n))) w (y.map fun _ => ()) w' ∧
      Stands w₀ d' w' := by
  obtain ⟨w', hscript, hstands'⟩ := hruns fuel hle _ (hstands.noting _)
  obtain ⟨b, -, rfl⟩ := hstands
  have hcall : Yields (calls ip react fuel (.listener l n)) (w₀.delivered d b) y w' :=
    yields_callHost.mpr hscript
  exact ⟨w', yields_discard.mpr ⟨y, hcall, rfl⟩, hstands'⟩

mutual

theorem yields_of_runs (ip : Interpreter I L) (w₀ : World H I) :
    ∀ {s : Script H I} {d : Delivery H} {result : Except Fault Datum} {d' : Delivery H},
      Runs react s d result d' → ∃ depth, ∀ fuel, depth ≤ fuel → ∀ w, Stands w₀ d w →
        ∃ w', Yields (runScript (exec ip react fuel) s) w result w' ∧ Stands w₀ d' w'
  | _, _, _, _, .finish => by
      refine ⟨0, fun fuel _ w hstands => ⟨_, yields_finish.mpr ⟨rfl, rfl⟩, hstands.withHost _⟩⟩
  | _, _, _, _, .edit hnext => by
      obtain ⟨depth, hdepth⟩ := yields_of_runs ip w₀ hnext
      refine ⟨depth + 1, fun fuel hle w hstands => ?_⟩
      obtain ⟨fuel, rfl⟩ := Nat.exists_eq_add_of_lt hle
      obtain ⟨w', hrest, hstands'⟩ :=
        hdepth (depth + fuel + 1) (by omega) _ (((hstands.withHost _).editing _).noting _)
      exact ⟨w', yields_request.mpr ⟨_, _, yields_edit.mpr ⟨rfl, rfl⟩, hrest⟩, hstands'⟩
  | _, _, _, _, .publish htells hnext => by
      obtain ⟨depth₁, hdepth₁⟩ := yields_of_tells ip w₀ htells
      obtain ⟨depth₂, hdepth₂⟩ := yields_of_runs ip w₀ hnext
      refine ⟨max depth₁ depth₂ + 1, fun fuel hle w hstands => ?_⟩
      obtain ⟨fuel, rfl⟩ := Nat.exists_eq_add_of_lt hle
      obtain ⟨w₁, htold, b, hb, rfl⟩ :=
        hdepth₁ (max depth₁ depth₂ + fuel) (by omega) _ ((hstands.withHost _).sending _)
      rw [← hstands.line] at htold
      obtain ⟨w', hrest, hstands'⟩ :=
        hdepth₂ (max depth₁ depth₂ + fuel + 1) (by omega) _ (Stands.noting ⟨b, hb, rfl⟩ _)
      exact ⟨w', yields_request.mpr ⟨_, _, yields_publish.mpr ⟨_, htold, rfl⟩, hrest⟩, hstands'⟩

theorem yields_of_tells (ip : Interpreter I L) (w₀ : World H I) :
    ∀ {n : Notice} {ls : List Listener} {d : Delivery H} {told : List Listener}
      {x : Except Fault Unit} {d' : Delivery H},
      TellsLine react n ls d told x d' → ∃ depth, ∀ fuel, depth ≤ fuel → ∀ w, Stands w₀ d w →
        ∃ w', Yields (ls.forM fun l => discard (calls ip react fuel (.listener l n))) w x w' ∧
          Stands w₀ d' w'
  | _, _, _, _, _, _, .nobody => 
      ⟨0, fun _ _ w hstands => ⟨w, yields_pure.mpr ⟨rfl, rfl⟩, hstands⟩⟩
  | _, _, _, _, _, _, .heard hruns htells => by
      obtain ⟨depth₁, hdepth₁⟩ := yields_of_runs ip w₀ hruns
      obtain ⟨depth₂, hdepth₂⟩ := yields_of_tells ip w₀ htells
      refine ⟨max depth₁ depth₂, fun fuel hle w hstands => ?_⟩
      obtain ⟨w₁, htold, hstands₁⟩ := yields_told hstands (Nat.le_trans (Nat.le_max_left ..) hle) hdepth₁
      obtain ⟨w', hrest, hstands'⟩ :=
        hdepth₂ fuel (Nat.le_trans (Nat.le_max_right ..) hle) w₁ hstands₁
      exact ⟨w', yields_bind.mpr (.inl ⟨_, w₁, htold, hrest⟩), hstands'⟩
  | _, _, _, _, _, _, .failed hruns => by
      obtain ⟨depth, hdepth⟩ := yields_of_runs ip w₀ hruns
      refine ⟨depth, fun fuel hle w hstands => ?_⟩
      obtain ⟨w', htold, hstands'⟩ := yields_told hstands hle hdepth
      exact ⟨w', yields_bind.mpr (.inr ⟨_, htold, rfl⟩), hstands'⟩

end

/-! ## The law of publishing -/

/-- Whoever stands in line, and whatever they do to the subscriptions or publish while they are
told: what a publish comes to is that those in line when it began are told, all of them or all
up to the first that fails, and then the bus is as the edits have left the subscriptions.  And
every such telling is what the publish comes to. -/
theorem publish_tells_line (hreact : react.KeepsToBus) {subs : Subscriptions}
    (hsubs : w.bus.Registers subs) (n : Notice) :
    (∀ fuel a w', Yields (exec ip react fuel (.publish n)) w a w' → ∃ told x d' b,
      TellsLine react n (w.bus.listeners n.kind) ⟨w.host, subs, w.journal, w.published ++ [n]⟩ told x
        d' ∧
      a = answered x ∧ (x = .ok () → told = w.bus.listeners n.kind) ∧
      (∀ f, x = .error f → ∃ before l after, w.bus.listeners n.kind = before ++ l :: after ∧
        told = before ++ [l]) ∧
      b.Registers d'.subs ∧ w' = w.delivered d' b) ∧
    ∀ told x d', TellsLine react n (w.bus.listeners n.kind)
      ⟨w.host, subs, w.journal, w.published ++ [n]⟩ told x d' →
        ∃ depth, ∀ fuel, depth ≤ fuel → ∃ b, b.Registers d'.subs ∧
          Yields (exec ip react (fuel + 1) (.publish n)) w (answered x) (w.delivered d' b) := by
  have hstands : Stands w ⟨w.host, subs, w.journal, w.published⟩ w := ⟨w.bus, hsubs, rfl⟩
  constructor
  · intro fuel a w' h
    obtain ⟨told, x, d', htells, ha, b, hb, hw'⟩ := tells_of_exec hreact w fuel n _ w a w' hstands h
    rw [← hsubs n.kind] at htells
    exact ⟨told, x, d', b, htells, ha, htells.told_eq.1, htells.told_eq.2, hb, hw'⟩
  · intro told x d' htells
    obtain ⟨depth, hdepth⟩ := yields_of_tells ip w htells
    refine ⟨depth, fun fuel hle => ?_⟩
    obtain ⟨w', htold, b, hb, rfl⟩ := hdepth fuel hle _ (hstands.sending n)
    exact ⟨b, hb, yields_publish.mpr ⟨x, htold, rfl⟩⟩

/-! ## A crowded line

The first in line brings in another, leaves the line and publishes something else; whoever hears
of that removes the second in line.  The second is told all the same, and fails.  The third is not
told any more. -/

def crowding : Host Unit Script.State := fun host c =>
  match c with
  | .listener l .plain =>
    if l.handle = 0 then
      .request host (.subscribe .plain ⟨none, 3⟩) fun host _ =>
        .request host (.unsubscribe .plain ⟨none, 0⟩) fun host _ =>
          .request host (.publish .storeCleared) fun host _ => .finish host (.ok .nothing)
    else .finish host (.error (.accident .value))
  | .listener _ .storeCleared =>
    .request host (.unsubscribe .plain ⟨none, 1⟩) fun host _ => .finish host (.ok .nothing)
  | _ => .finish host (.ok .nothing)

theorem crowding_keepsToBus : crowding.KeepsToBus := by
  intro host l n
  unfold crowding
  split
  · split
    · exact ⟨rfl, fun _ _ => ⟨rfl, fun _ _ => ⟨rfl, fun _ _ => trivial⟩⟩⟩
    · trivial
  · exact ⟨rfl, fun _ _ => trivial⟩
  · trivial

def crowd : World Unit Script.State where
  host := ()
  bus := (((({} : Bus).subscribe .plain ⟨none, 0⟩).subscribe .plain ⟨none, 1⟩).subscribe .plain
    ⟨none, 2⟩).subscribe .storeCleared ⟨none, 4⟩

theorem publish_tells_line_of_crowd : ∃ d' b depth,
    crowding.KeepsToBus ∧ crowd.bus.Registers crowd.bus.subscriptions ∧
    TellsLine crowding .plain (crowd.bus.listeners .plain)
      ⟨(), crowd.bus.subscriptions, [], [.plain]⟩ [⟨none, 0⟩, ⟨none, 1⟩]
      (.error (.accident .value)) d' ∧
    Yields (exec Script.interpreter crowding depth (.publish .plain)) crowd
      (.error (.accident .value)) (crowd.delivered d' b) ∧
    b.listeners .plain = [⟨none, 2⟩, ⟨none, 3⟩] := by
  have hsubs := Bus.registers_subscriptions crowd.bus
  obtain ⟨d', hd', htells⟩ : ∃ d' : Delivery Unit,
      d'.subs.line .plain = [⟨none, 2⟩, ⟨none, 3⟩] ∧
      TellsLine crowding .plain (crowd.bus.listeners .plain)
        ⟨(), crowd.bus.subscriptions, [], [.plain]⟩ [⟨none, 0⟩, ⟨none, 1⟩]
        (.error (.accident .value)) d' := by
    refine ⟨_, ?_, .heard (.edit (e := .subscribe .plain ⟨none, 3⟩)
      (.edit (e := .unsubscribe .plain ⟨none, 0⟩) (.publish (.heard
        (.edit (e := .unsubscribe .plain ⟨none, 1⟩) .finish) .nobody) .finish)))
      (.failed .finish)⟩
    rfl
  obtain ⟨depth, hdepth⟩ := (publish_tells_line crowding_keepsToBus hsubs .plain).2 _ _ _ htells
  obtain ⟨b, hb, hyields⟩ := hdepth depth (Nat.le_refl depth)
  exact ⟨d', b, depth + 1, crowding_keepsToBus, hsubs, htells, hyields, (hb .plain).trans hd'⟩

end Session

end Parley

import Injection.Proofs.Bookkeeping

/-!
Memoization over whole runs with one thread. Whatever was built, asked, used, nested or went wrong: of a binding whose
value is kept one provider run succeeds at most, and everybody gets its value from then on; an instance is always what
was bound; any other binding is provided anew for each request. The number of constructed values counts the bindings of
the first kind that have succeeded. All this holds of what the history tells and of what requests and lazy handles give,
between commands and in the middle of them.
-/

namespace Injection

open Happening

/-- The success of a provider run for a place. -/
def Happening.isSuccess (place : Address) : Happening → Bool
  | succeeded p _ => p = place
  | _ => false

theorem any_isSuccess_iff {place : Address} {history : List Happening} :
    history.any (·.isSuccess place) = true ↔ ∃ v, succeeded place v ∈ history := by
  rw [List.any_eq_true]
  constructor
  · rintro ⟨e, he, hsuccess⟩
    cases e with
    | succeeded p v =>
        obtain rfl : p = place := by simpa [isSuccess] using hsuccess
        exact ⟨v, he⟩
    | _ => cases hsuccess
  · rintro ⟨v, hv⟩
    exact ⟨_, hv, by simp [isSuccess]⟩

theorem Slots.isReady_iff {slots : Slots} {place : Address} :
    slots.isReady place = true ↔ ∃ v, slots.slot place = .ready v := by
  unfold isReady
  split
  · next v hslot => simp [hslot]
  · next hslot => simpa using hslot

/-- The history of a binding whose value is kept. -/
structure KeptOnce (history : List Happening) (o : Container) (b : Binding) : Prop where
  /-- After a run has succeeded, no run begins and none succeeds. -/
  last : ∀ later v earlier, history = later ++ succeeded (o.place b) v :: earlier →
    began (o.place b) ∉ later ∧ ∀ w, succeeded (o.place b) w ∉ later
  answers : ∀ c v, c.owner? b.key = some (o, b) → answered c b.key v ∈ history → succeeded (o.place b) v ∈ history
  uses : ∀ c v, c.owner? b.key = some (o, b) → used c b.key v ∈ history → succeeded (o.place b) v ∈ history

/-- The history of an instance. -/
structure AlwaysGiven (history : List Happening) (o : Container) (b : Binding) (v : Value) : Prop where
  /-- Each visit is answered with the instance before anything else happens at its place. -/
  visits : ∀ later earlier, history.filter (·.concerns (o.place b)) = later ++ entered (o.place b) :: earlier →
    ∃ before c, later = before ++ [answered c b.key v]
  refusals : refused (o.place b) ∉ history
  answers : ∀ c w, c.owner? b.key = some (o, b) → answered c b.key w ∈ history → w = v
  uses : ∀ c w, c.owner? b.key = some (o, b) → used c b.key w ∈ history → w = v

/-- The history of a provided binding whose value is not kept. -/
structure MadeEachTime (history : List Happening) (o : Container) (b : Binding) : Prop where
  /-- An answer is the value of a run of its own, and of this one only. -/
  answers : ∀ later c k v earlier,
    history.filter (·.concerns (o.place b)) = later ++ answered c k v :: earlier →
      ∃ before, earlier = succeeded (o.place b) v :: began (o.place b) :: entered (o.place b) :: before
  uses : ∀ c v, c.owner? b.key = some (o, b) → used c b.key v ∈ history → answered c b.key v ∈ history

/-- The history of all own bindings of a container, and what the container says of it. -/
structure Memoized (s : Store) (o : Container) : Prop where
  kept : ∀ b ∈ o.registry.bindings, b.isKept = true → KeptOnce s.history o b
  given : ∀ b ∈ o.registry.bindings, ∀ v, b.source = .given v → AlwaysGiven s.history o b v
  made : ∀ b ∈ o.registry.bindings, b.isInstance = false → b.isKept = false → MadeEachTime s.history o b
  count : s.constructedCount o =
    o.registry.bindings.countP fun b => b.isKept && s.history.any (·.isSuccess (o.place b))

/-! ### Own bindings -/

section Own

variable {me : Thread} {s : Store} {o : Container} {b : Binding}

theorem keptOnce (hs : Consistent me s)
    (hsettled : Chronicled (o.place b) b (s.slots.slot (o.place b)).value? (s.chronicle (o.place b)))
    (hkept : b.isKept = true) : KeptOnce s.history o b := by
  have hanswers (c : Container) (v : Value) (howner : c.owner? b.key = some (o, b))
      (hmem : answered c b.key v ∈ s.history) : succeeded (o.place b) v ∈ s.history :=
    (((hs.vouches howner hmem).kept hkept).2 v).2 rfl
  refine ⟨?_, hanswers, ?_⟩
  · intro later v earlier hhistory
    have hmem : succeeded (o.place b) v ∈ s.history := by simp [hhistory]
    rw [(succeeded_iff hsettled hkept).1 hmem] at hsettled
    obtain ⟨later', earlier', hchronicle, hlater, hearlier⟩ := hsettled.fruitful
    rw [Store.chronicle, hhistory, List.filter_append, List.filter_cons_of_pos (by simp)] at hchronicle
    have hsplit := (List.append_cons_inj_of_notMem
      (fun hmem => by rcases hlater _ hmem with heq | ⟨c, k, heq⟩ <;> cases heq)
      (fun hmem => by rcases hearlier _ hmem with heq | heq <;> cases heq)).1 hchronicle.symm
    have hpast (e : Happening) (hconcerns : e.concerns (o.place b) = true) (he : e ∈ later) : e ∈ later' :=
      hsplit.1 ▸ List.mem_filter.2 ⟨he, hconcerns⟩
    constructor
    · intro hbegan
      rcases hlater _ (hpast _ (by simp) hbegan) with heq | ⟨c, k, heq⟩ <;> cases heq
    · intro w hw
      rcases hlater _ (hpast _ (by simp) hw) with heq | ⟨c, k, heq⟩ <;> cases heq
  · intro c v howner hmem
    exact hanswers c v howner (hs.used c b.key v hmem)

theorem alwaysGiven (hs : Consistent me s) (ho : s.HasBuilt o) (hown : o.Owns (o.place b) b)
    (hsettled : Chronicled (o.place b) b (s.slots.slot (o.place b)).value? (s.chronicle (o.place b))) {v : Value}
    (hsource : b.source = .given v) : AlwaysGiven s.history o b v := by
  have hanswers (c : Container) (w : Value) (howner : c.owner? b.key = some (o, b))
      (hmem : answered c b.key w ∈ s.history) : w = v := (hs.vouches howner hmem).given v hsource
  refine ⟨?_, ?_, hanswers, ?_⟩
  · intro later earlier hpast
    obtain ⟨before, c, k, rfl⟩ := hsettled.answered_of_entered hsource hpast
    have hmem : answered c k v ∈ s.chronicle (o.place b) := by
      rw [Store.chronicle, hpast]
      simp
    obtain ⟨o', b', -, hplace⟩ := concerns_answered.1 (List.mem_filter.1 hmem).2
    exact ⟨before, c, by rw [show k = b.key from congrArg Address.key hplace]⟩
  · exact hs.refused o _ b ho hown (BindingOf.isInstance_of_given hsource)
  · intro c w howner hmem
    exact hanswers c w howner (hs.used c b.key w hmem)

theorem madeEachTime (hs : Consistent me s)
    (hsettled : Chronicled (o.place b) b (s.slots.slot (o.place b)).value? (s.chronicle (o.place b)))
    (hprovided : b.isInstance = false) (hunkept : b.isKept = false) : MadeEachTime s.history o b :=
  ⟨fun _ _ _ _ _ hpast => hsettled.run_of_answered hprovided hunkept hpast,
    fun c v _ hmem => hs.used c b.key v hmem⟩

end Own

/-! ### What is given -/

/-- What requests and lazy handles give in a store, where keys are looked up in a certain way. -/
structure Answers (me : Thread) (s : Store) (require : Lookup) : Prop where
  keys : ∀ c k v t, s.HasBuilt c → (require c k).eval me s = (.ok v, t) → ∃ o b, b.key = k ∧ Returns s t c o b v
  requests : ∀ (a : Handle) r resolved t, s.HasBuilt a.container →
    (a.request require r).eval me s = (.ok resolved, t) → r.Brings s t a.container a.requester resolved
  handles : ∀ (l : Lazy) v t, (l.get require).eval me s = (.ok v, t) → l.Gives s t v
  /-- No request for an instance fails. -/
  instances : ∀ c o b v, s.HasBuilt c → c.owner? b.key = some (o, b) → b.source = .given v →
    ∃ t, (c.requireWith require b.key).eval me s = (.ok v, t)

theorem answers {me : Thread} {s : Store} (hs : Consistent me s) {require : Lookup} (hrequire : require.Sound me) :
    Answers me s require where
  keys c k v t hc heval := ((hrequire s c k hs hc).of_eval heval).returns
  requests a r resolved t hc heval := (sound_request hrequire hs hc a.requester r).of_eval heval
  handles l v t heval := (sound_get hrequire hs l).of_eval heval
  instances c o b v hc howner hsource := by
    obtain ⟨hreaches, hlookup⟩ := Container.owner?_spec howner
    have hplace : o.place b ∉ s.building me := by
      intro hmem
      have ho := hs.hasBuilt_of_reaches hc hreaches
      have hprovided := (hs.provided_of_mem_building ho ⟨rfl, hlookup⟩ hmem).1
      rw [BindingOf.isInstance_of_given hsource] at hprovided
      cases hprovided
    exact ⟨_, by rw [eval_requireWith howner, eval_produce_given hplace hsource]⟩

/-! ### Whole runs -/

theorem memoized {me : Thread} {s : Store} (hs : Consistent me s) {o : Container} (ho : s.HasBuilt o) :
    Memoized s o := by
  have hown (b : Binding) (hb : b ∈ o.registry.bindings) : o.Owns (o.place b) b :=
    ⟨rfl, Registry.lookup_of_mem (hs.distinct o ho) hb⟩
  have hsettled (b : Binding) (hb : b ∈ o.registry.bindings) :
      Chronicled (o.place b) b (s.slots.slot (o.place b)).value? (s.chronicle (o.place b)) :=
    hs.settled o (o.place b) b ho (hown b hb)
  refine ⟨fun b hb => keptOnce hs (hsettled b hb), fun b hb v => alwaysGiven hs ho (hown b hb) (hsettled b hb),
    fun b hb => madeEachTime hs (hsettled b hb), ?_⟩
  rw [Store.constructedCount, Container.keptKeys, List.countP_map, List.countP_filter]
  apply List.countP_congr
  intro b hb
  by_cases hkept : b.isKept
  · have hiff : s.slots.isReady (o.place b) = true ↔ s.history.any (·.isSuccess (o.place b)) = true := by
      rw [Slots.isReady_iff, any_isSuccess_iff]
      exact exists_congr fun v => ((succeeded_iff (hsettled b hb) hkept).trans Slot.value?_eq_some).symm
    simpa [hkept, Container.place] using hiff
  · simp [hkept]

/-- Whatever commands a session with one thread carries out, every container that was ever built accounts for its own
bindings afterwards, and the next command replies what the bindings give. It is the same whenever a request may be made,
also in the middle of what was asked for: whatever is asked from there brings what the bindings give, with the lookup of
the commands and with those of the providers, which are bounded by a depth. -/
theorem Session.memoized_execAll (cmds : List Command) (hsingle : ∀ c ∈ cmds, c.isSingle = true) :
    (∀ o, (empty.execAll cmds).2.store.HasBuilt o → Memoized (empty.execAll cmds).2.store o) ∧
      (∀ c reply, c.isSingle = true → ((empty.execAll cmds).2.exec c).1.reply = .ok reply →
        (empty.execAll cmds).2.Tells c reply ((empty.execAll cmds).2.exec c).2) ∧
      ∀ s, Moment s → (∀ o, s.HasBuilt o → Memoized s o) ∧ Answers Task.mainThread s Container.require ∧
        ∀ depth, Answers Task.mainThread s (requireWithin depth) := by
  have horderly := orderly_execAll orderly_empty hsingle
  refine ⟨fun o => memoized horderly.consistent, fun c reply hc hreply => tells_exec horderly hc hreply, ?_⟩
  intro s hmoment
  have hs := hmoment.consistent
  exact ⟨fun o => memoized hs, answers hs (sound_require _), fun depth => answers hs (sound_requireWithin _ depth)⟩

namespace Clockwork

def clock : TypeInfo := ⟨1, "Clock", .number⟩

/-- A clock for everyone. -/
def clockDraft : Draft := (BindingOf.provider ⟨clock, "", [], none⟩).keeping

/-- The run that asks for the clock twice, and for a handle on it. -/
def askingTwice : List Command :=
  [.newBuilder "b" none, .add "b" clockDraft .given, .build "b" "c" false, .ask "c" (.untyped (.ofType clock)) none,
    .ask "c" (.untyped (.ofType clock)) none, .ask "c" (.resolve (.deferred clock)) (some "later")]

end Clockwork

open Clockwork in
/-- Both times the same clock is given, and the handle gives it once more. -/
theorem Session.memoized_askingTwice : ∃ o v, (empty.execAll askingTwice).2.store.HasBuilt o ∧
    (empty.execAll askingTwice).2.store.constructedCount o = 1 ∧ Memoized (empty.execAll askingTwice).2.store o ∧
    ((empty.execAll askingTwice).1.drop 3).map (·.reply) =
      [.ok (.resolved (.value v)), .ok (.resolved (.value v)), .ok (.handle false)] ∧
    ((empty.execAll askingTwice).2.exec (.use "later" none)).1.reply = .ok (.resolved (.value v)) ∧
    (empty.execAll askingTwice).2.Tells (.use "later" none) (.resolved (.value v))
      ((empty.execAll askingTwice).2.exec (.use "later" none)).2 := by
  have hbuilt : (empty.execAll askingTwice).2.store.HasBuilt _ :=
    List.mem_of_getLast? (rfl : (empty.execAll askingTwice).2.store.history.getLast? = some (.built _))
  obtain ⟨hmemoized, htells, -⟩ := memoized_execAll askingTwice (by decide)
  exact ⟨_, _, hbuilt, rfl, hmemoized _ hbuilt, rfl, rfl, htells (.use "later" none) _ rfl rfl⟩

end Injection

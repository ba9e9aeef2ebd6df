import Nngpp.Async.Runs
import Nngpp.Lib.Conjoin

/-!
How long an item sleeps.

A message begins with the time after which it is to be sent back. `Delayed` says that an
item sleeps as long as the message says that it has received last. One branch of the
callback reads this time, and is verified again for it. No other statement starts a
sleep, so that the proofs of the other branches are reused.
-/

namespace Nngpp.Async

open Function Lib

variable {S : Server} {t : Tid} {i : WorkPtr} {s s' : Shared}

/-- The delay that a message starts with. -/
def delay (msg : Message) : BitVec 32 := Msg.Width.decode .u32 (msg.body.take 4)

/-- An item sleeps as long as the message says that it has received last. -/
def Delayed (s : Shared) : Prop :=
  ∀ i when past m msg, (s.works i).aio.ops = [.sleep when] →
    s.history i = past ++ [.received m msg] → when = some (delay msg)

/-- A message is its delay and what is sent back. -/
theorem body_eq {msg : Message} (h : 4 ≤ msg.body.length) :
    msg.body = Msg.Width.encode .u32 (delay msg) ++ msg.body.drop 4 := by
  have hlength : (msg.body.take 4).length = 4 := List.length_take_of_le h
  have hlt : BigEndian.decode (msg.body.take 4) < 2 ^ 32 := by
    have hbound := BigEndian.decode_lt (msg.body.take 4)
    rw [hlength] at hbound
    omega
  have hencode : Msg.Width.encode .u32 (delay msg) = msg.body.take 4 := by
    show BigEndian.encode 4 (BitVec.ofNat 32 (BigEndian.decode (msg.body.take 4))).toNat = _
    rw [BitVec.toNat_ofNat, Nat.mod_eq_of_lt hlt]
    have henc := BigEndian.encode_decode (msg.body.take 4)
    rwa [hlength] at henc
  rw [hencode, List.take_append_drop]

/-! ### The statements -/

section Statements

@[simp] theorem works_touch : (s.touch t i).works = s.works := by
  unfold Shared.touch
  split <;> rfl

@[simp] theorem history_touch : (s.touch t i).history = s.history := by
  unfold Shared.touch
  split <;> rfl

@[simp] theorem works_freeMsg (p : Option MsgPtr) : (s.freeMsg p).works = s.works := by
  cases p with
  | none => rfl
  | some m =>
      simp only [Shared.freeMsg]
      split <;> rfl

@[simp] theorem history_freeMsg (p : Option MsgPtr) : (s.freeMsg p).history = s.history := by
  cases p with
  | none => rfl
  | some m =>
      simp only [Shared.freeMsg]
      split <;> rfl

/-- An item changes, but not in its operations. -/
theorem ops_setWork {x : Work} (hx : x.aio.ops = (s.works i).aio.ops) (j : WorkPtr) :
    ((s.setWork i x).works j).aio.ops = (s.works j).aio.ops := by
  rcases eq_or_ne j i with rfl | hj
  · show (update s.works j x j).aio.ops = _
    rw [update_self, hx]
  · show (update s.works i x j).aio.ops = _
    rw [update_of_ne hj]

theorem Delayed.still (h : Delayed s) (hops : ∀ j, (s'.works j).aio.ops = (s.works j).aio.ops)
    (hhistory : s'.history = s.history) : Delayed s' := by
  intro j when past m msg hsleep hpast
  rw [hops] at hsleep
  rw [hhistory] at hpast
  exact h j when past m msg hsleep hpast

theorem keeps_read {α : Type} (f : Work → α) : (logic S).Keeps Delayed (read i f) := by
  intro t _ s b s' _ _ h hrun
  obtain rfl : s.touch t i = s' := congrArg Prod.snd (Option.some.inj hrun)
  exact h.still (by simp) (by simp)

theorem keeps_setState (state : State) : (logic S).Keeps Delayed (setState i state) := by
  intro t _ s b s' _ _ h hrun
  obtain rfl : (s.touch t i).setWork i { s.works i with state := state } = s' :=
    congrArg Prod.snd (Option.some.inj hrun)
  refine h.still (fun j => ?_) history_touch
  rw [ops_setWork (by simp), works_touch]

theorem keeps_releaseMsg : (logic S).Keeps Delayed (releaseMsg i) := by
  intro t _ s b s' _ _ h hrun
  obtain rfl := congrArg Prod.snd (Option.some.inj hrun)
  refine h.still (fun j => ?_) history_touch
  exact (ops_setWork (by simp) j).trans (by rw [works_touch])

theorem keeps_takeMsg : (logic S).Keeps Delayed (takeMsg i) := by
  intro t _ s b s' _ _ h hrun
  obtain rfl := congrArg Prod.snd (Option.some.inj hrun)
  refine h.still (fun j => ?_) ((history_freeMsg _).trans history_touch)
  exact (ops_setWork (by simp) j).trans (by rw [works_freeMsg, works_touch])

theorem keeps_dropMsg : (logic S).Keeps Delayed dropMsg := by
  intro t _ s b s' _ _ h hrun
  obtain rfl := congrArg Prod.snd (Option.some.inj hrun)
  refine h.still (fun j => ?_) (history_freeMsg _)
  exact congrArg (fun works => (works j).aio.ops) (works_freeMsg _)

theorem keeps_setMsg : (logic S).Keeps Delayed (setMsg i) := by
  intro t _ s b s' _ _ h hrun
  obtain rfl := congrArg Prod.snd (Option.some.inj hrun)
  refine h.still (fun j => ?_) history_touch
  exact (ops_setWork (by simp) j).trans (by rw [works_touch])

theorem keeps_trimU32 : (logic S).Keeps Delayed trimU32 := by
  intro t _ s b s' _ _ h hrun
  have hbytes : s'.works = s.works ∧ s'.history = s.history := by
    rw [trimU32, does] at hrun
    have hstate : _ = s' := congrArg Prod.snd (Option.some.inj hrun)
    rw [← hstate]
    cases s.vars t with
    | none => exact ⟨rfl, rfl⟩
    | some m =>
        simp only
        split <;> exact ⟨rfl, rfl⟩
  exact h.still (fun j => by rw [hbytes.1]) hbytes.2

/-- A start adds an operation to one item, and maybe an event to its history. -/
theorem of_start {op : Operation} {b : Unit} (h : start i op t () s = some (b, s')) :
    s'.works = update s.works i { s.works i with
      aio := { (s.works i).aio with ops := (s.works i).aio.ops ++ [op] } } ∧
    ∀ j, j ≠ i ∨ (∀ x, op ≠ .send x) → s'.history j = s.history j := by
  rw [start, does] at h
  have hstate : _ = s' := congrArg Prod.snd (Option.some.inj h)
  rw [← hstate]
  cases op with
  | recv x => exact ⟨by simp [Shared.setWork], by simp [Shared.setWork]⟩
  | sleep ms => exact ⟨by simp [Shared.setWork], by simp [Shared.setWork]⟩
  | send x =>
      refine ⟨by simp [Shared.setWork, Shared.log], ?_⟩
      rintro j (hj | hop)
      · simp [Shared.setWork, Shared.log, hj]
      · exact absurd rfl (hop x)

/-- A statement that starts another operation than a sleep. -/
theorem keeps_start {op : Operation} (hop : ∀ when, op ≠ .sleep when) :
    (logic S).Keeps Delayed (start i op) := by
  intro t _ s b s' _ _ h hrun
  obtain ⟨hworks, hhistory⟩ := of_start hrun
  intro j when past m msg hsleep hpast
  rcases eq_or_ne j i with rfl | hj
  · rw [hworks, update_self] at hsleep
    have hmem : op ∈ [Operation.sleep when] := hsleep ▸ List.mem_append_right _ (by simp)
    exact absurd (List.mem_singleton.mp hmem) (hop when)
  · rw [hworks, update_of_ne hj] at hsleep
    rw [hhistory j (.inl hj)] at hpast
    exact h j when past m msg hsleep hpast

/-- The item is given up, and sleeps as long as it has been told. -/
theorem spec_startSleep {k : Item} {p : Option (MsgPtr × Option Message)}
    {when : Option (BitVec 32)} {P : Unit → View → Prop}
    (hrests : Rests (S i) (k.started (.sleep when)))
    (hwhen : ∀ past m msg, k.history = past ++ [.received m msg] → when = some (delay msg))
    (hP : P () ⟨none, p⟩) :
    ((logic S).and Delayed).Spec t (start i (.sleep when)) ⟨some (i, k), p⟩ P := by
  apply Logic.Spec.and (spec_start hrests hP)
  intro s _ b s' hs hsees _ h hrun
  obtain ⟨ht, rfl, -⟩ := of_sees hsees
  obtain ⟨hworks, hhistory⟩ := of_start hrun
  intro j when' past m msg hsleep hpast
  rcases eq_or_ne j i with rfl | hj
  · have hops : (s.works j).aio.ops = [] := (hs.served ht).2
    rw [hworks, update_self] at hsleep
    obtain rfl : when = when' := by simpa [hops] using hsleep
    rw [hhistory j (.inr (by simp))] at hpast
    exact hwhen past m msg hpast
  · rw [hworks, update_of_ne hj] at hsleep
    rw [hhistory j (.inl hj)] at hpast
    exact h j when' past m msg hsleep hpast

/-- What is taken off the message is its delay. -/
theorem spec_trimU32_delay {k : Item} {m : MsgPtr} {msg : Message}
    {P : Except Exception (Option (BitVec 32)) → View → Prop}
    (hlong : 4 ≤ msg.body.length →
      P (.ok (some (delay msg))) ⟨some (i, k), some (m, some (trimmed msg))⟩)
    (hshort : msg.body.length < 4 → ∀ e, P (.error e) ⟨some (i, k), some (m, some msg)⟩) :
    (logic S).Spec t trimU32 ⟨some (i, k), some (m, some msg)⟩ P := by
  apply Logic.Spec.result (R := fun r => ∀ val, r = .ok val → val = some (delay msg))
  · apply spec_trimU32
    · intro h val hval
      rw [hval val rfl]
      exact hlong h
    · exact fun h e _ => hshort h e
  · intro s _ r s' _ hsees hrun val hr
    obtain ⟨-, -, hvar⟩ := of_sees hsees
    obtain ⟨m', hm', hpair⟩ := Option.map_eq_some_iff.mp hvar
    obtain ⟨rfl, hmsg⟩ := Prod.mk.inj hpair
    subst hr
    simp only [trimU32, does, hm', run_trimU32 hmsg] at hrun
    rcases Nat.lt_or_ge msg.body.length 4 with hlt | hge
    · rw [if_neg (by omega)] at hrun
      simp at hrun
    · rw [if_pos hge] at hrun
      exact (Except.ok.inj (Prod.mk.inj (Option.some.inj hrun)).1).symm

end Statements

/-! ### The callback -/

section Callback

variable {k : Item}

theorem all_orFail : (orFail i).run.All ((logic S).Keeps Delayed) := by
  apply Prog.All.bind_code (Prog.All.act_code (keeps_read _))
  intro result
  split <;> trivial

/-- The branches that go on with another operation than a sleep. -/
theorem all_begin {op : Operation} (state : State) (hop : ∀ when, op ≠ .sleep when) :
    (do
      Code.act (setState i state)
      Code.act (start i op) : Code Unit).run.All ((logic S).Keeps Delayed) :=
  Prog.All.bind_code (Prog.All.act_code (keeps_setState state)) fun _ =>
    Prog.All.act_code (keeps_start hop)

/-- A message has been received, and its delay is what the item is to sleep. -/
theorem ok_onReceived_delayed {past : List (MsgPtr × Message)} {m : MsgPtr} {msg : Message}
    (work : k.work = ⟨.recv, ⟨some m, .success, []⟩, none⟩) (launched : k.launched = true)
    (history : k.history = exchanges past ++ [.received m msg]) (inSlot : k.inSlot = some msg) :
    ((logic S).and Delayed).Ok t (onReceived S i) (fun _ => Done) (fun _ _ => True)
      ⟨some (i, k), none⟩ := by
  apply Logic.Ok.bind
  refine Logic.Ok.and (ok_orFail fun _ => ?_) all_orFail
  apply Logic.Ok.bind
  apply Logic.Ok.act
  refine Logic.Spec.and_keeps ?_ keeps_releaseMsg
  apply spec_releaseMsg
  rw [work, inSlot]
  apply Logic.Ok.bind
  apply Logic.Ok.act
  refine Logic.Spec.and_keeps ?_ keeps_trimU32
  apply spec_trimU32_delay
  · intro hlong
    apply Logic.Ok.bind
    apply Logic.Ok.act
    refine Logic.Spec.and_keeps ?_ keeps_takeMsg
    apply spec_takeMsg
    · rfl
    apply Logic.Ok.bind
    apply Logic.Ok.act
    refine Logic.Spec.and_keeps ?_ keeps_dropMsg
    apply spec_dropMsg
    apply Logic.Ok.bind
    apply Logic.Ok.act
    refine Logic.Spec.and_keeps ?_ (keeps_setState _)
    apply spec_setState
    apply Logic.Ok.act
    apply spec_startSleep
    -- the rest of the message is what the item will send
    · exact .sleep past m msg .success _ hlong rfl launched history rfl
    · -- the message is the one that was received last
      intro past' m' msg' hpast
      have hlast : Event.received m msg = .received m' msg' :=
        (List.append_inj' (history.symm.trans hpast) rfl).2 |> List.singleton_inj.mp
      cases hlast
      rfl
    · rfl
  · intro hshort e
    apply Logic.Ok.bind
    apply Logic.Ok.act
    refine Logic.Spec.and_keeps ?_ (keeps_start fun when heq => by cases heq)
    apply spec_start
    · refine .recv (past ++ [(m, msg)]) .success rfl launched ?_
      rw [exchanges_concat, exchange_short hshort]
      exact history
    · apply Logic.Ok.act
      refine Logic.Spec.and_keeps ?_ keeps_dropMsg
      apply spec_dropMsg
      rfl

theorem safe_serverCb_delayed (hk : Called k) :
    ((logic S).and Delayed).Safe t (serverCb S i) (fun _ => Done) ⟨some (i, k), none⟩ := by
  have hrecv : ∀ when, Operation.recv (S i) ≠ .sleep when := fun when heq => by cases heq
  have hsend : ∀ when, Operation.send (S i) ≠ .sleep when := fun when heq => by cases heq
  apply Logic.Ok.orExit
  apply Logic.Ok.bind
  apply Logic.Ok.act
  refine Logic.Spec.and_keeps ?_ (keeps_read _)
  apply spec_read
  cases hk with
  | init work launched history =>
      rw [work]
      have hpast : k.history = exchanges [] := history
      exact (ok_receive work launched hpast).and (all_begin .recv hrecv)
  | received past m msg work launched history inSlot =>
      rw [work]
      exact ok_onReceived_delayed work launched history inSlot
  | slept past m msg r hlong work launched history inMsg =>
      rw [work]
      apply (ok_onSlept hlong work launched history inMsg).and
      exact Prog.All.bind_code (Prog.All.act_code keeps_setMsg) fun _ => all_begin .send hsend
  | sent past work launched history =>
      rw [work]
      apply Logic.Ok.bind
      refine Logic.Ok.and (ok_orFail fun _ => ?_) all_orFail
      exact (ok_receive work launched history).and (all_begin .recv hrecv)
  | failed state result =>
      obtain state | state := state
      · rw [state]
        apply Logic.Ok.bind
        exact Logic.Ok.and (ok_orFail fun hsuccess => absurd hsuccess result) all_orFail
      · rw [state]
        apply Logic.Ok.bind
        exact Logic.Ok.and (ok_orFail fun hsuccess => absurd hsuccess result) all_orFail

end Callback

/-! ### Runs -/

abbrev SoundDelayed (S : Server) (w : World) : Prop := Pool.Sound ((logic S).and Delayed) Done w

section Runs

variable {w w' : World} {tr : List (Transition World Label)}

/-- An operation that ends is no sleep any more. -/
theorem Delayed.call (h : Delayed s) (hends : Ends i s s') : Delayed (s'.serve i t) := by
  intro j when past m msg hsleep hpast
  rcases eq_or_ne j i with rfl | hj
  · have hops : (s'.works j).aio.ops = [.sleep when] := hsleep
    rw [hends.ops] at hops
    cases hops
  · have hitem := hends.outside.items j hj
    have hwork : s'.works j = s.works j := congrArg Item.work hitem
    have hhistory : s'.history j = s.history j := congrArg Item.history hitem
    apply h j when past m msg
    · rw [← hwork]
      exact hsleep
    · rw [← hhistory]
      exact hpast

theorem SoundDelayed.call (hd : SoundDelayed S w) (hw : Sound S w) {s : Shared}
    (h : Ends i w.shared s) (hrest : ∀ u, w.shared.serving u ≠ some i) (ht : w.code t = none) :
    SoundDelayed S (w.spawn t (serverCb S i) (s.serve i t)) := by
  have hdelayed : Delayed w.shared := hd.inv.2
  apply Pool.Sound.spawn hd
  · exact ⟨(hw.call h hrest ht).inv, hdelayed.call h⟩
  · rintro u hu v rfl
    exact h.outside.view hrest hu
  · exact view_called h.outside (hw.idle ht).2
  · exact safe_serverCb_delayed h.called

/-- Nobody has the message that nng is done with. -/
theorem frame_dispose (hs : Inv S s) {m : MsgPtr} (hm : s.taken m ≠ none) (t : Tid) :
    Frame t s { s with heap := update s.heap m none, taken := update s.taken m none } := by
  have hheap : ∀ q m', held s q = some m' → update s.heap m none m' = s.heap m' := by
    intro q m' hq
    have hne : m' ≠ m := by
      rintro rfl
      exact hm (hs.custody.taken_of_held hq)
    exact update_of_ne hne _ _
  refine ⟨fun _ _ => rfl, rfl, fun _ _ => rfl, fun _ _ => rfl, fun _ _ => rfl, ?_, ?_⟩
  · rintro j - m' (hslot | hmsg)
    · exact hheap _ m' hslot
    · exact hheap _ m' hmsg
  · exact fun u _ m' hvar => hheap _ m' hvar

theorem SoundDelayed.step (hd : SoundDelayed S w) (hw : Sound S w) {l : Label}
    (hstep : Step S w l w') : SoundDelayed S w' := by
  have hw' := sound_step hw hstep
  cases hstep.stepped with
  | run hrun => exact Pool.Sound.run hd hrun
  | launch resting absent =>
      exact hd.call hw (ends_launch hw.inv resting) (hw.inv.at_rest (.inl resting)) absent
  | complete started absent completes =>
      have hrest := hw.inv.at_rest (.inr (List.ne_nil_of_mem started))
      exact hd.call hw (ends_complete hw.inv started hrest completes) hrest absent
  | dispose taken =>
      have hdelayed : Delayed w.shared := hd.inv.2
      apply Pool.Sound.outside hd
      · exact ⟨hw'.inv, hdelayed.still (fun _ => rfl) rfl⟩
      · rintro u v rfl
        exact (frame_dispose hw.inv taken (u + 1)).view hw.inv (Nat.succ_ne_self u).symm

theorem delayed_run (run : Run (Step S) World.init tr w) : SoundDelayed S w := by
  suffices H : Sound S w ∧ SoundDelayed S w from H.2
  apply run.invariant (I := fun w => Sound S w ∧ SoundDelayed S w)
  · have hdelayed : Delayed .init := by
      intro i when past m msg hsleep
      cases hsleep
    refine ⟨sound_init, ⟨⟨inv_init S, hdelayed⟩, ?_, (sound_init (S := S)).absent⟩⟩
    intro t p hcode
    cases hcode
  · intro w l w' hw hstep
    exact ⟨sound_step hw.1 hstep, hw.2.step hw.1 hstep⟩

/-- A message for the item 0 of `demo/async` begins with the number 300. -/
def longMessage : List Label :=
  [.launch 0 0, .run 0, .run 0, .run 0,
    .complete 0 (.recv (.ctx 5)) (.received 9 ⟨[1], [0, 0, 1, 44, 7]⟩) 1,
    .run 1, .run 1, .run 1, .run 1, .run 1, .run 1, .run 1, .run 1]

end Runs

end Nngpp.Async

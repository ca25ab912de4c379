import Calaos.MainServer
/-!
# Buttons and switches (core/src/main_server.rs)

A WAGO INT datagram sets the variable of a digital input. `pressVar` is the variable under which
`make_input_var_map` enters an input, `digitalVar` the one of every digital input, whether it is entered or
not.

`trace` is the run of the loop with what each datagram lets out. `commands_classified` reads the commands of
each button off the datagrams of its own variable: the shared `last_change` is, for each long-press button, the
latest press since its last release (`Tracks`). `broadcasts_iff` says which raw states are broadcast: the
triple-press buttons have a branch in the loop and no entry in the map.
-/
namespace Calaos.MainServer

open Protocol History

variable {Addr : Type} {io : IoConfig}

/-! ## The map of the inputs -/

/-- The variable of a `WIDigitalBP` or `WIDigitalLong` input. -/
def pressVar (input : Input) : Option UInt32 :=
  match input.kind with
  | .wiDigitalBP wio | .wiDigitalLong wio => some wio.var
  | _ => none

/-- The variable of a digital input. -/
def digitalVar (input : Input) : Option UInt32 :=
  match input.kind with
  | .wiDigitalBP wio | .wiDigitalLong wio | .wiDigitalTriple wio => some wio.var
  | _ => none

/-- No two of the inputs that have a variable share it. -/
def Distinct (var : Input → Option UInt32) (io : IoConfig) : Prop := (io.inputs.filterMap var).Nodup

instance (var : Input → Option UInt32) (io : IoConfig) : Decidable (Distinct var io) :=
  inferInstanceAs (Decidable (List.Nodup _))

theorem digitalVar_of_pressVar {input : Input} {var : UInt32} (h : pressVar input = some var) :
    digitalVar input = some var := by
  unfold pressVar at h
  unfold digitalVar
  split at h <;> simp_all

theorem makeInputVarMap_eq (io : IoConfig) :
    makeInputVarMap io = (io.inputs.filterMap fun input => (pressVar input).map (·, input)).foldl
      (fun map entry => map.insert entry.1 entry.2) ∅ := by
  rw [List.foldl_filterMap, makeInputVarMap]
  congr 1
  funext map input
  unfold pressVar
  cases input.kind <;> rfl

/-- Of the inputs that share a variable the map has the last. -/
theorem lookup_inputVarMap (io : IoConfig) (var : UInt32) :
    (makeInputVarMap io).lookup var = latest (fun input => decide (pressVar input = some var)) io.inputs := by
  have hp : (fun input => ((pressVar input).map (·, input)).any fun e => decide (e.1 = var)) =
      fun input => decide (pressVar input = some var) := by
    funext input
    cases pressVar input <;> simp
  rw [makeInputVarMap_eq, HMap.lookup_foldl_insert Prod.fst Prod.snd, latest_filterMap, hp, Finmap.lookup_empty,
    Option.or_none]
  cases hl : latest (fun input => decide (pressVar input = some var)) io.inputs with
  | none => rfl
  | some input =>
    have hv : pressVar input = some var := by simpa using (mem_of_latest hl).2
    simp [hv]

/-- Two inputs with one variable are one. -/
theorem Distinct.latest {var : Input → Option UInt32} (h : Distinct var io) {v : UInt32} {input : Input} :
    latest (fun input => decide (var input = some v)) io.inputs = some input ↔
      input ∈ io.inputs ∧ var input = some v := by
  have hp : io.inputs.Pairwise fun a b => decide (var a = some v) = true → decide (var b = some v) = false := by
    refine (List.pairwise_filterMap.1 h).imp ?_
    intro a b hab ha
    rw [decide_eq_true_eq] at ha
    rw [decide_eq_false_iff_not]
    intro hb
    exact hab v ha v hb rfl
  rw [latest_unique hp, decide_eq_true_eq]

theorem Distinct.lookup (h : Distinct pressVar io) {v : UInt32} {input : Input} :
    (makeInputVarMap io).lookup v = some input ↔ input ∈ io.inputs ∧ pressVar input = some v := by
  rw [lookup_inputVarMap, h.latest]

/-! ## The loop, datagram by datagram -/

/-- The data of a WAGO INT datagram. -/
def wagoData (datagram : Datagram Addr) : Option WagoData :=
  match asyncUdpRead datagram with
  | some (.wagoInt data) => some data
  | _ => none

/-- Each datagram with what is let out for it. -/
def trace (inputVarMap : HMap UInt32 Input) :
    HMap UInt32 Nat → List (Datagram Addr) → List (Datagram Addr × List (Out Addr))
  | _, [] => []
  | lastChange, datagram :: datagrams =>
    match asyncUdpRead datagram with
    | none => []
    | some request =>
      let (lastChange, outs) := handle inputVarMap lastChange datagram request
      (datagram, outs) :: trace inputVarMap lastChange datagrams

theorem run_trace (inputVarMap : HMap UInt32 Input) : ∀ (datagrams : List (Datagram Addr))
    (lastChange : HMap UInt32 Nat),
    (run inputVarMap lastChange datagrams).1 = (trace inputVarMap lastChange datagrams).flatMap (·.2)
  | [], _ => rfl
  | datagram :: datagrams, lastChange => by
    rw [run, trace]
    cases asyncUdpRead datagram with
    | none => rfl
    | some request =>
      simp only [List.flatMap_cons, run_trace inputVarMap datagrams]

theorem asyncUdpRead_of_wagoData {datagram : Datagram Addr} {data : WagoData} (h : wagoData datagram = some data) :
    asyncUdpRead datagram = some (.wagoInt data) := by
  unfold wagoData at h
  split at h
  · rename_i data' hr
    rw [hr, Option.some.inj h]
  · cases h

/-! ## The commands of each button -/

def commands (outs : List (Out Addr)) : List IODataAction :=
  outs.filterMap fun out =>
    match out with
    | .command ioAction => some ioAction
    | _ => none

/-- The datagram sets the variable. -/
def sets (var : UInt32) (datagram : Datagram Addr) : Bool := (wagoData datagram).any (·.var = var)

/-- The datagram's value is not zero. -/
def pressed (datagram : Datagram Addr) : Bool := (wagoData datagram).any (toBool ·.value)

/-- The presses since the last release, the latest first. -/
def sinceRelease (own : List (Datagram Addr)) : List (Datagram Addr) := own.reverse.takeWhile pressed

/-- What a release comes to: 2 when the latest press since the release before it is 400 ms old, or else 1. -/
def releaseValue (own : List (Datagram Addr)) (release : Datagram Addr) : IOValue :=
  match (sinceRelease own).head? with
  | some press => if press.now + longPress ≤ release.later then .int 2 else .int 1
  | none => .int 1

/-- The commands of a long-press button for a datagram after its datagrams `own`: one for a release. -/
def longCommands (id : String) (own : List (Datagram Addr)) (datagram : Datagram Addr) : List IODataAction :=
  if pressed datagram then [] else [⟨id, .setValue (releaseValue own datagram)⟩]

/-- The commands let out for the datagrams of a variable. -/
def sentFor (var : UInt32) (trace : List (Datagram Addr × List (Out Addr))) : List IODataAction :=
  (trace.filter fun entry => sets var entry.1).flatMap fun entry => commands entry.2

/-- Between the two looks at the clock less than 400 ms go by; a datagram treated in one instant has none
between them. -/
def Prompt (datagram : Datagram Addr) : Prop := datagram.later < datagram.now + longPress

instance (datagram : Datagram Addr) : Decidable (Prompt datagram) := inferInstanceAs (Decidable (_ < _))

/-- `last_change` after the datagrams `past`: the latest press of each long-press button since its release. -/
def Tracks (io : IoConfig) (past : List (Datagram Addr)) (lastChange : HMap UInt32 Nat) : Prop :=
  ∀ input ∈ io.inputs, ∀ wio, input.kind = .wiDigitalLong wio →
    lastChange.lookup wio.var = (sinceRelease (past.filter (sets wio.var))).head?.map (·.now)

theorem sinceRelease_append (own : List (Datagram Addr)) (d : Datagram Addr) :
    sinceRelease (own ++ [d]) = if pressed d then d :: sinceRelease own else [] := by
  simp only [sinceRelease, List.reverse_append, List.reverse_singleton, List.singleton_append, List.takeWhile_cons]

section
variable {d : Datagram Addr} {data : WagoData} {lastChange : HMap UInt32 Nat} {past : List (Datagram Addr)}

theorem sets_eq (h : wagoData d = some data) (var : UInt32) : sets var d = decide (data.var = var) := by
  simp only [sets, h, Option.any_some]

theorem pressed_eq (h : wagoData d = some data) : pressed d = toBool data.value := by
  simp only [pressed, h, Option.any_some]

/-- A datagram changes `last_change` at its own variable at most. -/
theorem handle_lookup_ne (inputVarMap : HMap UInt32 Input) {var : UInt32} (h : var ≠ data.var) :
    (handle inputVarMap lastChange d (.wagoInt data)).1.lookup var = lastChange.lookup var := by
  simp only [handle]
  cases inputVarMap.lookup data.var with
  | none => rfl
  | some input =>
    simp only
    cases input.kind with
    | wiDigitalLong wio =>
      simp only
      split
      · exact Finmap.lookup_insert_of_ne _ h
      · exact Finmap.lookup_erase_ne h
    | _ => rfl

theorem Tracks.handle (hio : Distinct pressVar io) (ht : Tracks io past lastChange) (hd : wagoData d = some data) :
    Tracks io (past ++ [d]) (handle (makeInputVarMap io) lastChange d (.wagoInt data)).1 := by
  intro input hin wio hk
  by_cases hv : wio.var = data.var
  · have hl : (makeInputVarMap io).lookup data.var = some input :=
      hio.lookup.2 ⟨hin, by simp only [pressVar, hk, hv]⟩
    have hown : (past ++ [d]).filter (sets wio.var) = past.filter (sets wio.var) ++ [d] := by
      simp [sets_eq hd, hv]
    rw [hown, sinceRelease_append, pressed_eq hd]
    simp only [MainServer.handle, hl, hk]
    cases toBool data.value with
    | true =>
      rw [if_pos rfl, if_pos rfl, hv, Finmap.lookup_insert]
      rfl
    | false =>
      rw [if_neg Bool.false_ne_true, if_neg Bool.false_ne_true, hv, Finmap.lookup_erase]
      rfl
  · have hown : (past ++ [d]).filter (sets wio.var) = past.filter (sets wio.var) := by
      simp [sets_eq hd, Ne.symm hv]
    rw [hown, handle_lookup_ne _ hv]
    exact ht input hin wio hk

/-- The commands let out for a datagram of `input` after `past`. -/
def commandsAt (input : Input) (past : List (Datagram Addr)) (datagram : Datagram Addr) : List IODataAction :=
  match input.kind with
  | .wiDigitalBP _ => [⟨input.id, .setValue (.bool (pressed datagram))⟩]
  | .wiDigitalLong wio => longCommands input.id (past.filter (sets wio.var)) datagram
  | _ => []

/-- The comparison in the loop, with the instant that `last_change` gives or the present one. -/
theorem releaseValue_eq (own : List (Datagram Addr)) {release : Datagram Addr} (hprompt : Prompt release) :
    (if release.later - ((sinceRelease own).head?.map (·.now)).getD release.now < longPress then (.int 1 : IOValue)
      else .int 2) = releaseValue own release := by
  have hpos : 0 < longPress := by decide
  unfold Prompt at hprompt
  unfold releaseValue
  cases (sinceRelease own).head? with
  | none =>
    have hlt : release.later - release.now < longPress := by omega
    exact if_pos hlt
  | some press =>
    by_cases h : press.now + longPress ≤ release.later
    · have hge : ¬ release.later - press.now < longPress := by omega
      exact (if_neg hge).trans (if_pos h).symm
    · have hlt : release.later - press.now < longPress := by omega
      exact (if_pos hlt).trans (if_neg h).symm

/-- Only the input of its variable gets commands for a datagram. -/
theorem commands_handle (hio : Distinct pressVar io) (ht : Tracks io past lastChange) (hd : wagoData d = some data)
    (hprompt : Prompt d) :
    commands (MainServer.handle (makeInputVarMap io) lastChange d (.wagoInt data)).2 =
      ((makeInputVarMap io).lookup data.var).toList.flatMap fun input => commandsAt input past d := by
  cases hl : (makeInputVarMap io).lookup data.var with
  | none => simp only [MainServer.handle, hl, commands, List.filterMap_nil, Option.toList_none, List.flatMap_nil]
  | some input =>
    obtain ⟨hin, hv⟩ := hio.lookup.1 hl
    simp only [MainServer.handle, hl, Option.toList_some, List.flatMap_singleton, commandsAt]
    cases hk : input.kind with
    | wiDigitalBP wio => simp [commands, pressed_eq hd]
    | wiDigitalLong wio =>
      have hvar : wio.var = data.var := by simpa [pressVar, hk] using hv
      have htrack := ht input hin wio hk
      simp only [longCommands, pressed_eq hd]
      cases toBool data.value with
      | true => simp [commands]
      | false =>
        rw [← hvar, htrack, ← releaseValue_eq _ hprompt]
        simp [commands]
    | _ => simp [commands]

end

/-- The commands for the datagrams of a variable, read off the datagrams. -/
theorem sentFor_trace (hio : Distinct pressVar io) (var : UInt32) :
    ∀ (datagrams past : List (Datagram Addr)) (lastChange : HMap UInt32 Nat), Tracks io past lastChange →
      (∀ d ∈ datagrams, (wagoData d).isSome ∧ Prompt d) →
      sentFor var (trace (makeInputVarMap io) lastChange datagrams) =
        along (fun past d => if sets var d then
          ((makeInputVarMap io).lookup var).toList.flatMap fun input => commandsAt input past d else [])
          past datagrams
  | [], _, _, _, _ => rfl
  | d :: datagrams, past, lastChange, ht, hds => by
    obtain ⟨⟨hsome, hprompt⟩, hrest⟩ := List.forall_mem_cons.1 hds
    obtain ⟨data, hd⟩ := Option.isSome_iff_exists.1 hsome
    have ih := sentFor_trace hio var datagrams (past ++ [d]) _ (ht.handle hio hd) hrest
    have hc := commands_handle hio ht hd hprompt
    rw [trace, asyncUdpRead_of_wagoData hd, along, ← ih]
    simp only [sentFor, sets_eq hd, decide_eq_true_eq]
    by_cases hv : data.var = var
    · subst hv
      simp [sets_eq hd, hc]
    · simp [sets_eq hd, hv]

theorem trace_datagrams (inputVarMap : HMap UInt32 Input) : ∀ (datagrams : List (Datagram Addr))
    (lastChange : HMap UInt32 Nat), (∀ d ∈ datagrams, (wagoData d).isSome) →
    (trace inputVarMap lastChange datagrams).map (·.1) = datagrams
  | [], _, _ => rfl
  | d :: datagrams, lastChange, hds => by
    obtain ⟨hsome, hrest⟩ := List.forall_mem_cons.1 hds
    obtain ⟨data, hd⟩ := Option.isSome_iff_exists.1 hsome
    rw [trace, asyncUdpRead_of_wagoData hd]
    simp only [List.map_cons, trace_datagrams inputVarMap datagrams _ hrest]

/-- The commands of each button are read off the datagrams of its own variable. -/
structure Classified (io : IoConfig) (datagrams : List (Datagram Addr))
    (trace : List (Datagram Addr × List (Out Addr))) : Prop where
  served : (serve io datagrams).1 = trace.flatMap (·.2)
  treated : trace.map (·.1) = datagrams
  bp : ∀ input ∈ io.inputs, ∀ wio, input.kind = .wiDigitalBP wio →
    sentFor wio.var trace =
      (datagrams.filter (sets wio.var)).map fun d => ⟨input.id, .setValue (.bool (pressed d))⟩
  long : ∀ input ∈ io.inputs, ∀ wio, input.kind = .wiDigitalLong wio →
    sentFor wio.var trace = along (longCommands input.id) [] (datagrams.filter (sets wio.var))
  other : ∀ var, (∀ input ∈ io.inputs, pressVar input ≠ some var) → sentFor var trace = []

/-- **Button presses are classified per button**, whatever the other buttons do. -/
theorem commands_classified {datagrams : List (Datagram Addr)} (hio : Distinct pressVar io)
    (hds : ∀ d ∈ datagrams, (wagoData d).isSome ∧ Prompt d) :
    Classified io datagrams (trace (makeInputVarMap io) ∅ datagrams) := by
  have hstart : Tracks io ([] : List (Datagram Addr)) ∅ := by
    intro input _ wio _
    rw [Finmap.lookup_empty]
    rfl
  have hsent := fun var => sentFor_trace hio var datagrams [] ∅ hstart hds
  refine ⟨run_trace _ _ _, trace_datagrams _ _ _ fun d hd => (hds d hd).1, ?_, ?_, ?_⟩
  · intro input hin wio hk
    have hl : (makeInputVarMap io).lookup wio.var = some input :=
      hio.lookup.2 ⟨hin, by simp only [pressVar, hk]⟩
    rw [hsent, hl, along_filter (g := fun _ d => [⟨input.id, .setValue (.bool (pressed d))⟩]) (p := sets wio.var),
      along_eq_map fun _ _ => rfl]
    · intro past d hs
      simp [hs, commandsAt, hk]
    · intro past d hs
      simp [hs]
  · intro input hin wio hk
    have hl : (makeInputVarMap io).lookup wio.var = some input :=
      hio.lookup.2 ⟨hin, by simp only [pressVar, hk]⟩
    rw [hsent, hl, along_filter (g := longCommands input.id) (p := sets wio.var), List.filter_nil]
    · intro past d hs
      simp [hs, commandsAt, hk]
    · intro past d hs
      simp [hs]
  · intro var hno
    have hl : (makeInputVarMap io).lookup var = none := by
      cases hl : (makeInputVarMap io).lookup var with
      | none => rfl
      | some input =>
        obtain ⟨hin, hv⟩ := hio.lookup.1 hl
        exact absurd hv (hno input hin)
    rw [hsent, hl, along_filter (g := fun _ _ => []) (p := fun _ => false)]
    · simp [along]
    · intro past d hs
      cases hs
    · intro past d _
      simp

/-- An input of each kind, with the variables 1, 2 and 3. -/
def threeInputs : IoConfig :=
  let input (id : String) (kind : InputKind) : Input := ⟨id, id, "", kind, "", true, false⟩
  let wio (var : UInt32) : WagoIO := ⟨"10.0.0.1", "502", var⟩
  ⟨⟨[⟨"Hall", "hall", [input "bp" (.wiDigitalBP (wio 1)), input "long" (.wiDigitalLong (wio 2)),
    input "triple" (.wiDigitalTriple (wio 3))], [], 0⟩]⟩⟩

/-- A text received and treated at the millisecond `ms`. -/
def textAt (text : String) (ms : Nat) : Datagram Nat :=
  ⟨text.toList.map fun c => UInt8.ofNat c.toNat, 7, ms * 1000000, ms * 1000000⟩

/-- The long-press button is held for 400 ms, while the other button is pressed and released. -/
def twoPresses : List (Datagram Nat) :=
  [textAt "WAGO INT 2 1" 0, textAt "WAGO INT 1 5" 100, textAt "WAGO INT 1 0" 200, textAt "WAGO INT 2 0" 400]

theorem twoPresses_classified :
    commands (serve threeInputs twoPresses).1 =
      [⟨"bp", .setValue (.bool true)⟩, ⟨"bp", .setValue (.bool false)⟩, ⟨"long", .setValue (.int 2)⟩] ∧
    Classified threeInputs twoPresses (trace (makeInputVarMap threeInputs) ∅ twoPresses) :=
  ⟨by decide +kernel, commands_classified (by decide +kernel) (by decide +kernel)⟩

/-! ## The raw states -/

def broadcasts (outs : List (Out Addr)) : List IOData :=
  outs.filterMap fun out =>
    match out with
    | .feedback ioData => some ioData
    | _ => none

/-- The digital input of the variable. -/
def inputOf (io : IoConfig) (var : UInt32) : Option Input := io.inputs.find? fun input => digitalVar input = some var

/-- The raw state that a datagram tells: that of the digital input of its variable. -/
def rawState (io : IoConfig) (datagram : Datagram Addr) : Option IOData := do
  let data ← wagoData datagram
  let input ← inputOf io data.var
  return ⟨input.id, .bool (data.value ≠ 0)⟩

/-- The one that is broadcast. -/
def broadcast (io : IoConfig) (datagram : Datagram Addr) : Option IOData := do
  let data ← wagoData datagram
  let input ← (makeInputVarMap io).lookup data.var
  return ⟨input.id, .bool (data.value ≠ 0)⟩

theorem broadcasts_handle (inputVarMap : HMap UInt32 Input) (lastChange : HMap UInt32 Nat) (d : Datagram Addr)
    (data : WagoData) :
    broadcasts (handle inputVarMap lastChange d (.wagoInt data)).2 =
      ((inputVarMap.lookup data.var).map fun input => (⟨input.id, .bool (data.value ≠ 0)⟩ : IOData)).toList := by
  simp only [handle]
  cases inputVarMap.lookup data.var with
  | none => rfl
  | some input =>
    simp only [Option.map_some, Option.toList_some]
    cases input.kind with
    | wiDigitalLong wio =>
      simp only
      split <;> rfl
    | _ => rfl

/-- What is broadcast does not depend on what came before. -/
theorem broadcasts_run (io : IoConfig) : ∀ (datagrams : List (Datagram Addr)) (lastChange : HMap UInt32 Nat),
    (∀ d ∈ datagrams, (wagoData d).isSome) →
    broadcasts (run (makeInputVarMap io) lastChange datagrams).1 = datagrams.filterMap (broadcast io)
  | [], _, _ => rfl
  | d :: datagrams, lastChange, hds => by
    obtain ⟨hsome, hrest⟩ := List.forall_mem_cons.1 hds
    obtain ⟨data, hd⟩ := Option.isSome_iff_exists.1 hsome
    have ih := broadcasts_run io datagrams (handle (makeInputVarMap io) lastChange d (.wagoInt data)).1 hrest
    have hh := broadcasts_handle (makeInputVarMap io) lastChange d data
    unfold broadcasts at ih hh ⊢
    simp only [run, asyncUdpRead_of_wagoData hd, List.filterMap_append, ih, hh]
    cases hl : (makeInputVarMap io).lookup data.var with
    | none => simp [broadcast, hd, hl]
    | some input => simp [broadcast, hd, hl]

/-- The variables of all digital inputs are different, hence those of the buttons that are entered. -/
theorem Distinct.pressVar (h : Distinct digitalVar io) : Distinct pressVar io := by
  refine List.pairwise_filterMap.2 ((List.pairwise_filterMap.1 h).imp ?_)
  intro a b hab v hv v' hv'
  exact hab v (digitalVar_of_pressVar hv) v' (digitalVar_of_pressVar hv')

theorem Distinct.inputOf (h : Distinct digitalVar io) {v : UInt32} {input : Input} :
    inputOf io v = some input ↔ input ∈ io.inputs ∧ digitalVar input = some v := by
  unfold MainServer.inputOf
  constructor
  · intro hf
    exact ⟨List.mem_of_find?_eq_some hf, by simpa using List.find?_some hf⟩
  · rintro ⟨hin, hv⟩
    cases hf : io.inputs.find? fun input => digitalVar input = some v with
    | none =>
      have hno := List.find?_eq_none.1 hf input hin
      exact absurd hv (by simpa using hno)
    | some input' =>
      have hl' := h.latest.2 ⟨List.mem_of_find?_eq_some hf, by simpa using List.find?_some hf⟩
      rw [h.latest.2 ⟨hin, hv⟩] at hl'
      exact hl'.symm

/-- A raw state is broadcast unless its input is a triple-press button. -/
theorem broadcast_iff (hio : Distinct digitalVar io) {d : Datagram Addr} {data : WagoData}
    (hd : wagoData d = some data) :
    (broadcast io d = none ∨ broadcast io d = rawState io d) ∧
    (broadcast io d = rawState io d ↔
      ∀ input ∈ io.inputs, ∀ wio, input.kind = .wiDigitalTriple wio → sets wio.var d = false) := by
  cases hl : (makeInputVarMap io).lookup data.var with
  | some input =>
    obtain ⟨hin, hv⟩ := hio.pressVar.lookup.1 hl
    have hof := hio.inputOf.2 ⟨hin, digitalVar_of_pressVar hv⟩
    have heq : broadcast io d = rawState io d := by simp [broadcast, rawState, hd, hl, hof]
    refine ⟨.inr heq, iff_of_true heq ?_⟩
    intro input' hin' wio hk
    by_cases hvar : data.var = wio.var
    · -- It would share its variable with `input`.
      have hof' := hio.inputOf.2 ⟨hin', show digitalVar input' = some data.var by simp [digitalVar, hk, hvar]⟩
      obtain rfl : input = input' := Option.some.inj (hof.symm.trans hof')
      simp [MainServer.pressVar, hk] at hv
    · simp [sets_eq hd, hvar]
  | none =>
    have hb : broadcast io d = none := by simp [broadcast, hd, hl]
    refine ⟨.inl hb, ?_⟩
    rw [hb]
    cases hof : inputOf io data.var with
    | none =>
      refine iff_of_true (by simp [rawState, hd, hof]) ?_
      intro input hin wio hk
      by_cases hvar : data.var = wio.var
      · rw [hio.inputOf.2 ⟨hin, show digitalVar input = some data.var by simp [digitalVar, hk, hvar]⟩] at hof
        cases hof
      · simp [sets_eq hd, hvar]
    | some input =>
      obtain ⟨hin, hv⟩ := hio.inputOf.1 hof
      refine iff_of_false (by simp [rawState, hd, hof]) ?_
      intro hno
      have hpress : MainServer.pressVar input ≠ some data.var := by
        intro hp
        rw [hio.pressVar.lookup.2 ⟨hin, hp⟩] at hl
        cases hl
      cases hk : input.kind with
      | wiDigitalTriple wio =>
        have hvar : wio.var = data.var := by simpa [digitalVar, hk] using hv
        have hs := hno input hin wio hk
        rw [sets_eq hd, hvar] at hs
        simp at hs
      | wiDigitalBP wio => exact hpress (by simpa [MainServer.pressVar, digitalVar, hk] using hv)
      | wiDigitalLong wio => exact hpress (by simpa [MainServer.pressVar, digitalVar, hk] using hv)
      | _ => simp [digitalVar, hk] at hv

section
variable {α β : Type} {f g : α → Option β} {l : List α}

theorem length_filterMap_le (h : ∀ a ∈ l, f a = none ∨ f a = g a) :
    (l.filterMap f).length ≤ (l.filterMap g).length := by
  induction l with
  | nil => exact Nat.le_refl _
  | cons a l ih =>
    obtain ⟨ha, hl⟩ := List.forall_mem_cons.1 h
    have ih := ih hl
    rcases ha with ha | ha
    · rw [List.filterMap_cons_none ha]
      cases hg : g a with
      | none => rwa [List.filterMap_cons_none hg]
      | some b =>
        rw [List.filterMap_cons_some hg, List.length_cons]
        omega
    · cases hg : g a with
      | none => rwa [List.filterMap_cons_none hg, List.filterMap_cons_none (ha.trans hg)]
      | some b =>
        rw [List.filterMap_cons_some hg, List.filterMap_cons_some (ha.trans hg), List.length_cons, List.length_cons]
        omega

/-- Nothing that is left out can be made up for. -/
theorem filterMap_eq_iff (h : ∀ a ∈ l, f a = none ∨ f a = g a) :
    l.filterMap f = l.filterMap g ↔ ∀ a ∈ l, f a = g a := by
  refine ⟨?_, List.filterMap_congr⟩
  intro heq
  induction l with
  | nil => exact fun _ ha => nomatch ha
  | cons a l ih =>
    obtain ⟨ha, hl⟩ := List.forall_mem_cons.1 h
    have hlen := length_filterMap_le hl
    rw [List.forall_mem_cons]
    cases hg : g a with
    | none =>
      have hf : f a = none := ha.elim id fun h => h.trans hg
      rw [List.filterMap_cons_none hf, List.filterMap_cons_none hg] at heq
      exact ⟨hf, ih hl heq⟩
    | some b =>
      rw [List.filterMap_cons_some hg] at heq
      rcases ha with ha | ha
      · rw [List.filterMap_cons_none ha] at heq
        have := congrArg List.length heq
        rw [List.length_cons] at this
        omega
      · rw [List.filterMap_cons_some (ha.trans hg)] at heq
        exact ⟨ha.trans hg, ih hl (List.cons.inj heq).2⟩

end

/-- **Which raw states are broadcast**: all of them as long as no triple-press button is used. -/
theorem broadcasts_iff {datagrams : List (Datagram Addr)} (hio : Distinct digitalVar io)
    (hds : ∀ d ∈ datagrams, (wagoData d).isSome) :
    broadcasts (serve io datagrams).1 = datagrams.filterMap (rawState io) ↔
      ∀ d ∈ datagrams, ∀ input ∈ io.inputs, ∀ wio, input.kind = .wiDigitalTriple wio → sets wio.var d = false := by
  have hb : ∀ d ∈ datagrams, (broadcast io d = none ∨ broadcast io d = rawState io d) ∧
      (broadcast io d = rawState io d ↔
        ∀ input ∈ io.inputs, ∀ wio, input.kind = .wiDigitalTriple wio → sets wio.var d = false) := by
    intro d hd
    obtain ⟨data, hdata⟩ := Option.isSome_iff_exists.1 (hds d hd)
    exact broadcast_iff hio hdata
  rw [serve, broadcasts_run io datagrams ∅ hds, filterMap_eq_iff fun d hd => (hb d hd).1]
  exact forall₂_congr fun d hd => (hb d hd).2

theorem twoPresses_broadcasts :
    broadcasts (serve threeInputs twoPresses).1 = twoPresses.filterMap (rawState threeInputs) := by
  refine (broadcasts_iff (by decide +kernel) (by decide +kernel)).2 ?_
  intro d hd input hin wio hk
  have hvar : wio.var = 3 := by
    rcases List.mem_cons.1 hin with rfl | hin
    · cases hk
    · rcases List.mem_cons.1 hin with rfl | hin
      · cases hk
      · obtain rfl := List.mem_singleton.1 hin
        cases hk
        rfl
  rw [hvar]
  exact (show ∀ d ∈ twoPresses, sets 3 d = false by decide +kernel) d hd

/-- A press of the triple-press button is not broadcast. -/
theorem triple_not_broadcast :
    Distinct digitalVar threeInputs ∧ (∀ d ∈ [textAt "WAGO INT 3 1" 0], (wagoData d).isSome) ∧
    broadcasts (serve threeInputs [textAt "WAGO INT 3 1" 0]).1 = [] ∧
    [textAt "WAGO INT 3 1" 0].filterMap (rawState threeInputs) = [⟨"triple", .bool true⟩] := by
  decide +kernel

end Calaos.MainServer

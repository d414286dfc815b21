import PsyBnc.Intnet.Inbound
import PsyBnc.UChannel.Load

/-!
# The mode interpreter

`intmode` reads a line of mode letters and their parameters twice: its own loop changes the channel
and collects what it has done, and `addchannelmode` then applies the collected line again.
`modeEffect` is what both together make of a channel.
-/

namespace PsyBnc

open CLib

/-! ## Parameters -/

/-- Words with blanks between them. -/
def spaced : List CStr → CStr
  | [] => []
  | [w] => w
  | w :: v :: ws => w ++ SP :: spaced (v :: ws)

/-- A pointer to the remaining words. -/
def spacedPtr (ws : List CStr) : Option CStr := if ws = [] then none else some (spaced ws)

/-- A word that a line of parameters can hold. -/
def Param (w : CStr) : Prop := w ≠ [] ∧ SP ∉ w

section Spaced

variable {w : CStr} {ws : List CStr}

theorem spaced_cons (hne : ws ≠ []) : spaced (w :: ws) = w ++ SP :: spaced ws := by
  cases ws with
  | nil =>
      exact absurd rfl hne
  | cons v ws =>
      rfl

theorem spaced_ne_nil (hws : ∀ w ∈ ws, Param w) (hne : ws ≠ []) : spaced ws ≠ [] := by
  cases ws with
  | nil =>
      exact absurd rfl hne
  | cons w ws =>
      have hw := (hws w (by simp)).1
      cases ws with
      | nil =>
          exact hw
      | cons v ws =>
          simp [spaced]

theorem nextParam_spaced (hws : ∀ v ∈ w :: ws, Param v) :
    nextParam (spaced (w :: ws)) = (w, spacedPtr ws) := by
  have hw := (hws w (by simp)).2
  cases ws with
  | nil =>
      simp [nextParam, spaced, spacedPtr, cutAt_eq_none.2 hw]
  | cons v ws =>
      have hrest : spaced (v :: ws) ≠ [] :=
        spaced_ne_nil (fun u hu => hws u (List.mem_cons_of_mem _ hu)) (by simp)
      simp only [nextParam, spaced, cutAt_append hw, hrest, if_false, spacedPtr]
      simp

/-- The words with a blank behind each of them. -/
theorem flatMap_spaced (hne : ws ≠ []) :
    ws.flatMap (fun w => w ++ [SP]) = spaced ws ++ [SP] := by
  induction ws with
  | nil =>
      exact absurd rfl hne
  | cons w ws ih =>
      cases ws with
      | nil =>
          simp [spaced]
      | cons v ws =>
          rw [List.flatMap_cons, ih (by simp)]
          simp [spaced]

theorem getLast?_spaced (hws : ∀ w ∈ ws, Param w) : (spaced ws).getLast? ≠ some SP := by
  induction ws with
  | nil =>
      simp [spaced]
  | cons w ws ih =>
      cases ws with
      | nil =>
          exact fun hlast => (hws w (by simp)).2 (List.mem_of_getLast? hlast)
      | cons v ws =>
          have hrest : ∀ u ∈ v :: ws, Param u := fun u hu => hws u (List.mem_cons_of_mem _ hu)
          rcases List.exists_cons_of_ne_nil (spaced_ne_nil hrest (by simp)) with ⟨b, bs, hcons⟩
          have hlast := ih hrest
          rw [spaced, List.getLast?_append_cons, hcons, List.getLast?_cons_cons, ← hcons]
          exact hlast

theorem length_spaced_le (ws : List CStr) {n : Nat} (hws : ∀ w ∈ ws, w.length ≤ n) :
    (spaced ws).length ≤ ws.length * (n + 1) := by
  induction ws with
  | nil =>
      simp [spaced]
  | cons w ws ih =>
      have hw := hws w (by simp)
      have hrest := ih fun v hv => hws v (List.mem_cons_of_mem _ hv)
      cases ws with
      | nil =>
          simp only [spaced, List.length_cons, List.length_nil]
          omega
      | cons v ws =>
          simp only [spaced, List.length_append, List.length_cons] at hrest ⊢
          rw [Nat.add_mul _ 1]
          omega

theorem mem_spaced {b : Byte} (hb : b ∈ spaced ws) : b = SP ∨ ∃ w ∈ ws, b ∈ w := by
  induction ws with
  | nil =>
      simp [spaced] at hb
  | cons w ws ih =>
      cases ws with
      | nil =>
          exact Or.inr ⟨w, by simp, hb⟩
      | cons v ws =>
          rcases List.mem_append.1 hb with hb | hb
          · exact Or.inr ⟨w, by simp, hb⟩
          · rcases List.mem_cons.1 hb with rfl | hb
            · exact Or.inl rfl
            · exact (ih hb).imp_right fun ⟨u, hu, hbu⟩ => ⟨u, List.mem_cons_of_mem _ hu, hbu⟩

end Spaced

/-! ## The effect of a line -/

/-- What `intmode` makes of a channel. -/
def modeEffect (net : Intnet) (chan : Uchannelt) (modes params : CStr) : Uchannelt :=
  let s := modes.foldl (intmodeStep net) { chan := chan, p := modeParams params }
  if s.newmode = [] ∨ s.newmode = [PLUS] ∨ s.newmode = [MINUS] then s.chan
  else (addchannelmode s.chan s.newmode (rtrim s.newparam)).1

section Effect

variable {net : Intnet} {chan : Uchannelt}

theorem intmode_unknown {ircfrom name modes params : CStr} {nlink : Nat}
    (h : getuserchannel net.intchan name = none) :
    (intmode net ircfrom name modes params nlink).1 = net := by
  simp [intmode, h]

theorem intmode_known {ircfrom name modes params : CStr} {nlink k : Nat}
    (h : getuserchannel net.intchan name = some k) (hk : net.intchan[k]? = some chan) :
    (intmode net ircfrom name modes params nlink).1 =
      { net with intchan := net.intchan.modify k fun _ => modeEffect net chan modes params } := by
  simp only [intmode, h, hk, modeEffect]
  split
  · rfl
  · rfl

/-! ## The loop of `intmode` -/

/-- One letter with its parameter. -/
abbrev ModeItem := Byte × CStr

def applyItem (net : Intnet) (chan : Uchannelt) (item : ModeItem) : Uchannelt :=
  if item.1 = 98 then (addban chan item.2).1
  else if item.1 = 111 then (addop net chan item.2).1
  else (addvoice chan item.2).1

/-- The item is done, and recorded as it came. -/
def Accepts (net : Intnet) (chan : Uchannelt) (item : ModeItem) : Prop :=
  Param item.2 ∧
    ((item.1 = 98 ∧ item.2.length ≤ 100 ∧ (addban chan item.2).2 = true) ∨
      ((item.1 = 111 ∨ item.1 = 118) ∧
        ((getclientbynick net item.2).map Clientt.nick).getD item.2 = item.2))

/-- Every item is done in the state that those before it leave. -/
def AllAccept (net : Intnet) : Uchannelt → List ModeItem → Prop
  | _, [] => True
  | chan, item :: items => Accepts net chan item ∧ AllAccept net (applyItem net chan item) items

theorem AllAccept.param {items : List ModeItem} (h : AllAccept net chan items) :
    ∀ w ∈ items.map Prod.snd, Param w := by
  induction items generalizing chan with
  | nil =>
      simp
  | cons item items ih =>
      intro w hw
      rcases List.mem_cons.1 hw with rfl | hw
      · exact h.1.1
      · exact ih h.2 w hw

theorem addop_done (net : Intnet) (chan : Uchannelt) (nick : CStr) :
    (addop net chan nick).2 = true := by
  unfold addop
  split
  · rfl
  · rfl

theorem addvoice_done (chan : Uchannelt) (nick : CStr) : (addvoice chan nick).2 = true := by
  unfold addvoice
  split
  · rfl
  · rfl

theorem intmodeStep_item {s : Intmode} {item : ModeItem} {ws : List CStr}
    (h : Accepts net s.chan item) (hws : ∀ w ∈ ws, Param w) (hsign : s.sign = PLUS)
    (hakt : s.aktbans < 3) (hp : s.p = some (spaced (item.2 :: ws))) :
    ∃ s', intmodeStep net s item.1 = s' ∧ s'.chan = applyItem net s.chan item ∧
      s'.newmode = s.newmode ++ [item.1] ∧ s'.newparam = addParam s.newparam item.2 item.2 ∧
      s'.sign = PLUS ∧ s'.aktbans = s.aktbans + 1 ∧ s'.p = spacedPtr ws := by
  rcases item with ⟨m, w⟩
  rcases h with ⟨hw, hcase⟩
  have harg : nextParam (spaced (w :: ws)) = (w, spacedPtr ws) := by
    refine nextParam_spaced fun v hv => ?_
    rcases List.mem_cons.1 hv with rfl | hv
    · exact hw
    · exact hws v hv
  have hp' : s.p = some (spaced (w :: ws)) := hp
  refine ⟨_, rfl, ?_⟩
  rcases hcase with ⟨rfl, hlen, hban⟩ | ⟨hm, hnick⟩
  · have h₁ : ¬ ((98 : Byte) = PLUS ∨ (98 : Byte) = MINUS) := by decide
    have h₂ : ¬ (98 : Byte) ∈ ascii "smitn" := by decide
    have hshort : ¬ 100 < w.length := by
      have : w.length ≤ 100 := hlen
      omega
    have hban' : (addban s.chan w).2 = true := hban
    simp only [intmodeStep, h₁, h₂, hp', harg, hshort, hakt, hsign, hban', if_false, if_true,
      Intmode.done, applyItem]
    exact ⟨trivial, trivial, trivial, trivial, trivial, trivial⟩
  · have hnick' : ((getclientbynick net w).map Clientt.nick).getD w = w := hnick
    rcases hm with rfl | rfl
    · have h₁ : ¬ ((111 : Byte) = PLUS ∨ (111 : Byte) = MINUS) := by decide
      have h₂ : ¬ (111 : Byte) ∈ ascii "smitn" := by decide
      have h₃ : ¬ (111 : Byte) = 98 := by decide
      simp only [intmodeStep, h₁, h₂, h₃, hp', harg, hakt, hsign, hnick', addop_done, true_or,
        if_false, if_true, Intmode.done, applyItem]
      exact ⟨trivial, trivial, trivial, trivial, trivial, trivial⟩
    · have h₁ : ¬ ((118 : Byte) = PLUS ∨ (118 : Byte) = MINUS) := by decide
      have h₂ : ¬ (118 : Byte) ∈ ascii "smitn" := by decide
      have h₃ : ¬ (118 : Byte) = 98 := by decide
      have h₄ : ¬ (118 : Byte) = 111 := by decide
      simp only [intmodeStep, h₁, h₂, h₃, h₄, hp', harg, hakt, hsign, hnick', addvoice_done, or_true,
        if_false, if_true, Intmode.done, applyItem]
      exact ⟨trivial, trivial, trivial, trivial, trivial, trivial⟩

theorem addParam_fits {newparam w : CStr} (h : newparam.length + w.length + 1 < 399) (text : CStr) :
    addParam newparam w text = newparam ++ (text ++ [SP]) := by
  rw [addParam, if_pos h, List.append_assoc]

/-- A line of up to three items is done as a whole. -/
theorem foldl_intmodeStep {items : List ModeItem} {s : Intmode} (h : AllAccept net s.chan items)
    (hsign : s.sign = PLUS) (hakt : s.aktbans + items.length ≤ 3)
    (hp : s.p = spacedPtr (items.map Prod.snd))
    (hlen : s.newparam.length + ((items.map Prod.snd).flatMap fun w => w ++ [SP]).length < 399) :
    ((items.map Prod.fst).foldl (intmodeStep net) s).chan = items.foldl (applyItem net) s.chan ∧
      ((items.map Prod.fst).foldl (intmodeStep net) s).newmode =
        s.newmode ++ items.map Prod.fst ∧
      ((items.map Prod.fst).foldl (intmodeStep net) s).newparam =
        s.newparam ++ (items.map Prod.snd).flatMap fun w => w ++ [SP] := by
  induction items generalizing s with
  | nil =>
      simp
  | cons item items ih =>
      simp only [List.length_cons] at hakt
      simp only [List.map_cons, List.flatMap_cons, List.length_append, List.length_cons,
        List.length_nil] at hlen
      rcases intmodeStep_item h.1 (h.2.param) hsign (by omega) (by simpa [spacedPtr] using hp) with
        ⟨s', hs', hchan, hmode, hparam, hsign', hakt', hp'⟩
      have hadd : addParam s.newparam item.2 item.2 = s.newparam ++ (item.2 ++ [SP]) :=
        addParam_fits (by omega) _
      have hrest := ih (s := s') (hchan ▸ h.2) hsign' (by omega) hp' (by
        rw [hparam, hadd]
        simp only [List.length_append, List.length_cons, List.length_nil]
        omega)
      rw [List.map_cons, List.foldl_cons, hs']
      refine ⟨?_, ?_, ?_⟩
      · rw [hrest.1, hchan, List.foldl_cons]
      · rw [hrest.2.1, hmode]
        simp
      · rw [hrest.2.2, hparam, hadd]
        simp

/-- A line that starts with `+` and has up to three items is done by the loop, and then handed to
`addchannelmode` as it came. -/
theorem modeEffect_items {items : List ModeItem} (h : AllAccept net chan items)
    (hne : items ≠ []) (hthree : items.length ≤ 3)
    (hletters : ∀ m ∈ items.map Prod.fst, m ≠ PLUS ∧ m ≠ MINUS)
    (hlong : 2 ≤ (spaced (items.map Prod.snd)).length)
    (hlen : ((items.map Prod.snd).flatMap fun w => w ++ [SP]).length < 399) :
    modeEffect net chan (PLUS :: items.map Prod.fst) (spaced (items.map Prod.snd)) =
      ordermodes (modeLoop (items.map Prod.fst) PLUS (some (spaced (items.map Prod.snd)))
        (items.foldl (applyItem net) chan)).1 := by
  have hws : items.map Prod.snd ≠ [] := by simpa using hne
  have hspaced : (spaced (items.map Prod.snd)).length < 399 := by
    rw [flatMap_spaced hws, List.length_append] at hlen
    omega
  have hlast := getLast?_spaced h.param
  have hrtrim := rtrim_eq_self_of_last hlast (by omega)
  have hparams : modeParams (spaced (items.map Prod.snd)) = spacedPtr (items.map Prod.snd) := by
    have hno : ¬ (spaced (items.map Prod.snd)).length ≤ 1 := by omega
    rw [modeParams, hrtrim, if_neg hno, spacedPtr, if_neg hws]
  let s₀ : Intmode := { chan := chan, p := modeParams (spaced (items.map Prod.snd)) }
  -- The `+` in front changes nothing.
  have hplus : intmodeStep net s₀ PLUS = s₀ := by simp [intmodeStep, s₀]
  have hfold := foldl_intmodeStep (s := s₀) h rfl (by simpa [s₀] using hthree) hparams
    (by simpa [s₀] using hlen)
  have hnewmode : s₀.newmode = [] := rfl
  have hnewparam : s₀.newparam = [] := rfl
  rw [hnewmode, hnewparam, List.nil_append, List.nil_append] at hfold
  have hmodes : ¬ (items.map Prod.fst = [] ∨ items.map Prod.fst = [PLUS] ∨
      items.map Prod.fst = [MINUS]) := by
    rintro (hnil | hsingle | hsingle)
    · exact hne (by simpa using hnil)
    · exact (hletters PLUS (by simp [hsingle])).1 rfl
    · exact (hletters MINUS (by simp [hsingle])).2 rfl
  have hclip : clip 200 (items.map Prod.fst) = items.map Prod.fst :=
    clip_eq_self (by simp only [List.length_map]; omega)
  have hcollected : rtrim ((items.map Prod.snd).flatMap fun w => w ++ [SP]) =
      spaced (items.map Prod.snd) := by
    rw [flatMap_spaced hws, rtrim_append_sp (by omega), hrtrim]
  have hclip' : clip 4096 (spaced (items.map Prod.snd)) = spaced (items.map Prod.snd) :=
    clip_eq_self (by omega)
  have hs₀ : ({ chan := chan, p := modeParams (spaced (items.map Prod.snd)) } : Intmode) = s₀ := rfl
  simp only [modeEffect, List.foldl_cons, hs₀, hplus, hfold.1, hfold.2.1, hfold.2.2, hmodes,
    if_false, addchannelmode, hclip, hcollected, hclip']
  rfl

end Effect

end PsyBnc

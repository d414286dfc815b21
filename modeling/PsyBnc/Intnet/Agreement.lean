import PsyBnc.Intnet.Burst

/-!
# Agreement after a burst

A bouncer that knows no clients and no channels has read the lines of `joinintnettolink`.  It then
knows what the sender knows, up to the guests and the channels of guests only.
-/

namespace PsyBnc

open CLib

/-- A channel as it arrives. -/
def image (chan : Uchannelt) : Uchannelt :=
  shared chan.name (arrived chan.users) chan.bans chan.modes

section Channels

variable {r : Intnet} {clients : List Clientt} {me : CStr} {nlink : Nat}

/-- The lines about one channel. -/
theorem receive_channel (hclients : SendableClients clients) (hme : CleanName me)
    {chan : Uchannelt} (hchan : SendableChannel clients chan) {done : List Uchannelt}
    (hdone : ∀ d ∈ done, foldName d.name ≠ foldName chan.name) :
    receive nlink { r with clients := known clients, intchan := done } (joinChannel me chan) =
      { r with clients := known clients, intchan := shown done (image chan) } := by
  have hstart : ({ r with clients := known clients, intchan := done } : Intnet) =
      stage r clients done (shared chan.name [] [] (ascii "nt")) := rfl
  have hlines : joinChannel me chan =
      joinMembers me chan.name chan.users (modeline me chan.name) [] 0 ++
        joinBans me chan.name chan.bans (modeline me chan.name) [] 0 ++
        [sendtolink me (modeLine me chan.name chan.modes)] := rfl
  have hmembers : receive nlink (stage r clients done (shared chan.name [] [] (ascii "nt")))
      (joinMembers me chan.name chan.users (modeline me chan.name) [] 0) =
      stage r clients done (shared chan.name (arrived chan.users) [] (ascii "nt")) := by
    have hroster : Roster clients ([] ++ chan.users) := ⟨hchan.members, hchan.nicks⟩
    have hloop := receive_members r nlink hclients hme hchan.name hdone hroster
      (List.Sublist.refl []) (by simp) (by simp) hchan.last
    rw [List.map_nil, List.map_nil, List.append_nil] at hloop
    exact hloop
  have hbans : receive nlink
      (stage r clients done (shared chan.name (arrived chan.users) [] (ascii "nt")))
      (joinBans me chan.name chan.bans (modeline me chan.name) [] 0) =
      stage r clients done (shared chan.name (arrived chan.users) chan.bans (ascii "nt")) := by
    have hnew : NewBans ([] ++ chan.bans) [] := hchan.bans
    have hloop := receive_bans r clients nlink hme hchan.name hdone (arrived chan.users) hnew
      hchan.masks (by simp)
    rw [List.map_nil, List.append_nil] at hloop
    exact hloop
  rw [hstart, hlines, receive_append, receive_append, hmembers, hbans, receive_cons,
    receive_flags hme hchan.name hdone hchan.modes]
  rfl

theorem shown_eq (done : List Uchannelt) (chan : Uchannelt) :
    shown done chan = done ++ [chan].filter fun c => decide (c.users ≠ []) := by
  by_cases hempty : chan.users = []
  · simp [shown, hempty]
  · simp [shown, hempty]

theorem receive_channels (hclients : SendableClients clients) (hme : CleanName me)
    {chans : List Uchannelt} (hchans : ∀ chan ∈ chans, SendableChannel clients chan)
    {done : List Uchannelt}
    (hnames : ((done ++ chans).map fun chan => foldName chan.name).Nodup) :
    receive nlink { r with clients := known clients, intchan := done }
        (chans.flatMap (joinChannel me)) =
      { r with
        clients := known clients
        intchan := done ++ (chans.map image).filter fun chan => decide (chan.users ≠ []) } := by
  induction chans generalizing done with
  | nil =>
      simp [receive]
  | cons chan chans ih =>
      have hdone : ∀ d ∈ done, foldName d.name ≠ foldName chan.name := by
        intro d hd heq
        rw [List.map_append, List.nodup_append] at hnames
        exact hnames.2.2 _ (List.mem_map_of_mem hd) _ (by simp) heq
      have hrest : ((shown done (image chan) ++ chans).map fun chan => foldName chan.name).Nodup := by
        have hname : foldName (image chan).name = foldName chan.name := rfl
        by_cases hempty : (image chan).users = []
        · rw [shown, if_pos hempty]
          exact hnames.sublist
            (((List.Sublist.refl done).append (List.sublist_cons_self chan chans)).map _)
        · rw [shown, if_neg hempty]
          simpa [hname] using hnames
      rw [List.flatMap_cons, receive_append, receive_channel hclients hme (hchans chan (by simp)) hdone,
        ih (fun d hd => hchans d (List.mem_cons_of_mem _ hd)) hrest, shown_eq, List.append_assoc,
        ← List.filter_append]
      rfl

end Channels

/-- What a burst does to a bouncer that knows nothing. -/
theorem receive_joinintnettolink {net : Intnet} (h : Sendable net) {r : Intnet}
    (hclients : r.clients = []) (hintchan : r.intchan = []) (nlink : Nat) :
    receive nlink r (joinintnettolink net) =
      { r with
        clients := known net.clients
        intchan := (net.intchan.map image).filter fun chan => decide (chan.users ≠ []) } := by
  have hnicks : ((r.clients ++ net.clients).map fun c => foldNick c.nick).Nodup := by
    rw [hclients, List.nil_append]
    exact h.clients.nicks
  have hfirst := receive_clients nlink h.me h.clients.each hnicks
  rw [hclients, List.nil_append] at hfirst
  have hmid : ({ r with clients := known net.clients } : Intnet) =
      { r with clients := known net.clients, intchan := [] } := by rw [← hintchan]
  rw [joinintnettolink, receive_append, hfirst, hmid,
    receive_channels h.clients h.me h.channels (by simpa using h.names)]
  simp

/-! ## Agreement -/

/-- What bouncers share of a client. -/
structure ClientView where
  nick : CStr
  ident : CStr
  host : CStr
  server : CStr
  deriving DecidableEq

/-- What bouncers share of a channel; it has a key while `k` is set. -/
structure ChannelView where
  name : CStr
  users : List Uchannelusert
  bans : List CStr
  modes : CStr
  key : Option CStr
  deriving DecidableEq

def clientView (c : Clientt) : ClientView := ⟨c.nick, c.ident, c.host, c.server⟩

def channelView (chan : Uchannelt) : ChannelView where
  name := chan.name
  users := chan.users
  bans := chan.bans
  modes := chan.modes
  key := if 107 ∈ chan.modes then some chan.key else none

/-- Two bouncers know the same clients and the same channels, with members, bans, modes and key. -/
def SameNet (net net' : Intnet) : Prop :=
  net'.clients.map clientView = net.clients.map clientView ∧
    net'.intchan.map channelView = net.intchan.map channelView

instance (net net' : Intnet) : Decidable (SameNet net net') := by
  dsimp [SameNet]
  infer_instance

/-- The network as far as it is not about guests. -/
def withoutGuests (net : Intnet) : Intnet :=
  { net with
    clients := net.clients.filter fun c => decide (¬ isGuest c.nick)
    intchan := (net.intchan.map fun chan => { chan with users := arrived chan.users }).filter
      fun chan => decide (chan.users ≠ []) }

theorem channelView_image {chan : Uchannelt} (h : SendableModes chan.modes) :
    channelView (image chan) = channelView { chan with users := arrived chan.users } := by
  have hkey : ¬ (107 : Byte) ∈ chan.modes := by
    intro hk
    exact absurd (mem_sendableModes h 107 hk) (by decide)
  simp [channelView, image, shared, hkey]

/-- After the burst the receiver knows what the sender knows, without the guests. -/
theorem burst_agrees {net : Intnet} (h : Sendable net) {r : Intnet} (hclients : r.clients = [])
    (hintchan : r.intchan = []) (nlink : Nat) :
    SameNet (withoutGuests net) (receive nlink r (joinintnettolink net)) := by
  rw [receive_joinintnettolink h hclients hintchan nlink]
  constructor
  · simp only [known, withoutGuests, List.map_map]
    exact List.map_congr_left fun c _ => rfl
  · simp only [withoutGuests, List.filter_map, List.map_map]
    have husers : ((fun chan : Uchannelt => decide (chan.users ≠ [])) ∘ image) =
        (fun chan : Uchannelt => decide (chan.users ≠ [])) ∘
          fun chan => { chan with users := arrived chan.users } := rfl
    rw [husers]
    refine List.map_congr_left fun chan hchan => ?_
    exact channelView_image (h.channels chan (List.mem_filter.1 hchan).1).modes

/-- A local user. -/
def joe : Clientt := ⟨1, ascii "joe", ascii "jd", ascii "example.net", ascii "a joe"⟩

/-- Another user, who has not chosen a nick. -/
def guest : Clientt := ⟨2, ascii "Guest7", ascii "g", ascii "example.org", ascii "a"⟩

def memberOf (c : Clientt) (mode : CStr) : Uchannelusert := ⟨c.nick, c.ident, c.host, mode⟩

/-- A bouncer with two users on a channel. -/
def twoUsers : Intnet where
  me := ascii "a"
  clients := [joe, guest]
  intchan := [shared (ascii "#c") [memberOf joe (ascii "@"), memberOf guest (ascii "+")]
    [ascii "*!*@spam.net"] (ascii "mnt")]

theorem sendable_twoUsers : Sendable twoUsers := by
  have hjoe : SendableClient joe :=
    ⟨by decide, by decide, by decide, by decide, by decide⟩
  have hguest : SendableClient guest :=
    ⟨by decide, by decide, by decide, by decide, by decide⟩
  refine ⟨⟨by decide, by decide, by decide⟩, ⟨?_, by decide⟩, ?_, by decide⟩
  · intro c hc
    rcases List.mem_pair.1 hc with rfl | rfl
    · exact hjoe
    · exact hguest
  · intro chan hchan
    rcases List.mem_singleton.1 hchan with rfl
    refine ⟨⟨by decide, by decide, by decide, by decide, by decide⟩, ?_, by decide,
      fun hone => absurd hone (by decide), ⟨by decide, by decide, by decide⟩, ?_, by decide⟩
    · intro u hu
      rcases List.mem_pair.1 hu with rfl | rfl
      · exact ⟨⟨joe, by simp [twoUsers], rfl, rfl, rfl⟩, by decide, by decide, by decide⟩
      · exact ⟨⟨guest, by simp [twoUsers], rfl, rfl, rfl⟩, by decide, by decide, by decide⟩
    · intro b hb
      rcases List.mem_singleton.1 hb with rfl
      exact ⟨⟨by decide, by decide⟩, by decide, by decide, by decide⟩

/-- The other bouncer gets to know the first of the two users, as operator of the channel. -/
theorem burst_agrees_two_users :
    SameNet (withoutGuests twoUsers) (receive 1 { me := ascii "b" } (joinintnettolink twoUsers)) :=
  burst_agrees sendable_twoUsers rfl rfl 1

/-- A bouncer with one user on a channel. -/
def oneUser (c : Clientt) (mode : CStr) (bans : List CStr) (modes key : CStr) : Intnet where
  me := ascii "a"
  clients := [c]
  intchan := [{ shared (ascii "#c") [memberOf c mode] bans modes with key := key }]

/-- Guests are not told about.  Besides them there are things that the lines cannot hold: a key, a
member with both modes, a channel without `n`, a single nick of one byte, a `:` in a host or in a
ban, and a long ident. -/
theorem burst_disagrees :
    (let net := oneUser guest [] [] (ascii "nt") []
     ¬ SameNet net (receive 1 { me := ascii "b" } (joinintnettolink net))) ∧
    ∀ net ∈ [oneUser joe (ascii "@") [] (ascii "ntk") (ascii "secret"),
        oneUser joe (ascii "@+") [] (ascii "nt") [],
        oneUser joe (ascii "@") [] (ascii "t") [],
        oneUser { joe with nick := ascii "j" } (ascii "@") [] (ascii "nt") [],
        oneUser { joe with host := ascii "fe80::1" } (ascii "@") [] (ascii "nt") [],
        oneUser joe (ascii "@") [ascii "*!*@fe80::1"] (ascii "nt") [],
        oneUser { joe with ident := ascii "sixteen-or-more-" } (ascii "@") [] (ascii "nt") []],
      ¬ SameNet (withoutGuests net) (receive 1 { me := ascii "b" } (joinintnettolink net)) := by
  decide +kernel

end PsyBnc

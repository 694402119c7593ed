import Mathlib.Order.Basic
import Mathlib.Data.Nat.Defs

set_option autoImplicit false

/-! # Device names in fixed-size buffers

`main` labels each device's histogram with `histogram_tag`, the device name padded to 18
columns by `sprintf(p_device->histogram_tag, "%-18s", p_device->name)` into a
`char[MAX_DEVICE_NAME_SIZE]`. Before that, `set_schedulers` builds the sysfs path of each
device's I/O scheduler in a `char scheduler_file_name[128]`:

    strcpy(scheduler_file_name, "/sys/block/");
    strcat(scheduler_file_name, device_tag);
    strcat(scheduler_file_name, "/queue/scheduler");

where `device_tag` is what follows the last `/` of the device name (`strrchr`), or the whole
name. The configuration keeps each name in a `char[MAX_DEVICE_NAME_SIZE]`, so a name has
fewer than `MAX_DEVICE_NAME_SIZE` characters; `configuration.h`, which fixes that size, is
not among the sources, and the size is a parameter here.

A C string is the list of its characters, without its terminating `'\0'`; storing one in a
`char[n]` takes its length plus one bytes, and a store past the end is `none`. The path fits
its buffer exactly when the tag has at most 100 characters (`schedulerFileName_eq`). So
`set_schedulers` stays inside its buffer for every configuration exactly when
`MAX_DEVICE_NAME_SIZE` is at most 101, and then writes the mode to
`/sys/block/<tag>/queue/scheduler` for every device whose `fopen` succeeds, `<tag>` being
the last component of the device's path, and skips the others (`setSchedulers_writes`). The padded tag fits every name exactly when
`MAX_DEVICE_NAME_SIZE` is at least 19 (`histogramTag_fits`).
-/

namespace Act

/-! ## C strings in fixed-size buffers -/

/-- `strcpy` of `src` into a `char[cap]`: the string the buffer then holds, `none` if `src`
and its `'\0'` do not fit. `sprintf` stores the string it formats the same way. -/
def strcpyInto (cap : Nat) (src : List Char) : Option (List Char) :=
  if src.length + 1 ≤ cap then some src else none

/-- `strcat` of `src` onto the string `dst` held in a `char[cap]`. -/
def strcatInto (cap : Nat) (dst src : List Char) : Option (List Char) :=
  if dst.length + src.length + 1 ≤ cap then some (dst ++ src) else none

/-- `strrchr(s, '/') + 1`: the characters after the last `/` of `s`, or `none` when `s` has
no `/` and `strrchr` returns `NULL`. -/
def afterLastSlash : List Char → Option (List Char)
  | [] => none
  | c :: rest =>
    match afterLastSlash rest with
    | some tag => some tag
    | none => if c = '/' then some rest else none

/-- `device_tag`: what follows the device name's last `/`, or the whole name. -/
def deviceTag (deviceName : List Char) : List Char := (afterLastSlash deviceName).getD deviceName

/-- The text `strcpy` puts first. -/
def sysBlock : List Char := "/sys/block/".toList

/-- The text the second `strcat` appends. -/
def queueScheduler : List Char := "/queue/scheduler".toList

/-- `scheduler_file_name` for a device, built in its `char[128]`. -/
def schedulerFileName (deviceName : List Char) : Option (List Char) := do
  let fileName ← strcpyInto 128 sysBlock
  let fileName ← strcatInto 128 fileName (deviceTag deviceName)
  strcatInto 128 fileName queueScheduler

/-- `set_schedulers` over the device names in order: the files it writes `mode` to, with what
it writes. `fopenOk` says which paths `fopen(..., "w")` opens; a failed `fopen` or `fwrite`
is logged and the loop goes on to the next device. `none` when a path overflows its
buffer. -/
def setSchedulers (mode : List Char) (fopenOk : List Char → Bool) :
    List (List Char) → Option (List (List Char × List Char))
  | [] => some []
  | deviceName :: deviceNames => do
    let fileName ← schedulerFileName deviceName
    let rest ← setSchedulers mode fopenOk deviceNames
    pure (if fopenOk fileName then (fileName, mode) :: rest else rest)

/-- `sprintf(histogram_tag, "%-18s", name)` into a `char[MAX_DEVICE_NAME_SIZE]`: the name
padded with spaces to 18 columns. -/
def histogramTag (MAX_DEVICE_NAME_SIZE : Nat) (name : List Char) : Option (List Char) :=
  strcpyInto MAX_DEVICE_NAME_SIZE (name ++ List.replicate (18 - name.length) ' ')

/-! ## The device tag -/

theorem afterLastSlash_eq_none {l : List Char} : afterLastSlash l = none ↔ '/' ∉ l := by
  induction l with
  | nil => simp [afterLastSlash]
  | cons c rest ih =>
    simp only [afterLastSlash, List.mem_cons, not_or]
    cases h : afterLastSlash rest with
    | some t =>
      have hr : '/' ∈ rest := Classical.byContradiction fun hn => by simp [ih.2 hn] at h
      simp [hr]
    | none =>
      by_cases hc : c = '/'
      · subst hc; simp
      · simp [hc, Ne.symm hc, ih.1 h]

/-- What `strrchr(s, '/') + 1` points to has no `/`, and follows a `/` of `s`. -/
theorem afterLastSlash_eq_some {l t : List Char} (h : afterLastSlash l = some t) :
    '/' ∉ t ∧ ∃ pre, l = pre ++ '/' :: t := by
  induction l with
  | nil => cases h
  | cons c rest ih =>
    simp only [afterLastSlash] at h
    split at h
    · next h' =>
      cases h
      obtain ⟨ht, pre, rfl⟩ := ih h'
      exact ⟨ht, c :: pre, rfl⟩
    · next h' =>
      split at h
      · next hc => cases h; exact ⟨afterLastSlash_eq_none.1 h', [], by rw [hc]; rfl⟩
      · cases h

/-- The device tag is the last component of the device's path: it has no `/`, and what comes
before it in the name is empty or ends in `/`. -/
theorem deviceTag_last (deviceName : List Char) :
    '/' ∉ deviceTag deviceName ∧ ∃ pre, deviceName = pre ++ deviceTag deviceName ∧
      (pre = [] ∨ pre.getLast? = some '/') := by
  unfold deviceTag
  cases h : afterLastSlash deviceName with
  | none => exact ⟨afterLastSlash_eq_none.1 h, [], rfl, .inl rfl⟩
  | some t =>
    obtain ⟨ht, pre, rfl⟩ := afterLastSlash_eq_some h
    exact ⟨ht, pre ++ ['/'], by simp, .inr (by simp)⟩

theorem deviceTag_length_le (deviceName : List Char) :
    (deviceTag deviceName).length ≤ deviceName.length := by
  obtain ⟨-, pre, hpre, -⟩ := deviceTag_last deviceName
  have := congrArg List.length hpre
  rw [List.length_append] at this
  omega

/-! ## `set_schedulers` -/

theorem sysBlock_length : sysBlock.length = 11 := rfl

theorem queueScheduler_length : queueScheduler.length = 16 := rfl

/-- The path is built whole exactly when the tag has at most `128 - 11 - 16 - 1 = 100`
characters, and then it is `/sys/block/<tag>/queue/scheduler`. -/
theorem schedulerFileName_eq (deviceName : List Char) :
    schedulerFileName deviceName =
      if (deviceTag deviceName).length ≤ 100 then
        some (sysBlock ++ deviceTag deviceName ++ queueScheduler)
      else none := by
  have hlen : ∀ l : List Char, (sysBlock ++ l).length = 11 + l.length := fun l => by
    rw [List.length_append, sysBlock_length]
  unfold schedulerFileName strcatInto
  simp only [show strcpyInto 128 sysBlock = some sysBlock from rfl, Option.bind_eq_bind,
    Option.some_bind, hlen, sysBlock_length, queueScheduler_length]
  by_cases h : (deviceTag deviceName).length ≤ 100
  · rw [if_pos (by omega), Option.some_bind, hlen, if_pos (by omega), if_pos h]
  · rw [if_neg h]
    split
    · rw [Option.some_bind, hlen, if_neg (by omega)]
    · rfl

/-- When every tag fits, `set_schedulers` writes `mode` to the path of each device whose
`fopen` succeeds, in order. -/
theorem setSchedulers_eq (mode : List Char) (fopenOk : List Char → Bool) :
    ∀ deviceNames : List (List Char), (∀ n ∈ deviceNames, (deviceTag n).length ≤ 100) →
      setSchedulers mode fopenOk deviceNames =
        some (((deviceNames.map fun n => sysBlock ++ deviceTag n ++ queueScheduler).filter
          fopenOk).map fun fileName => (fileName, mode))
  | [], _ => rfl
  | n :: ns, h => by
    have hn := h n (List.mem_cons_self n ns)
    have hns := setSchedulers_eq mode fopenOk ns fun n' hn' => h n' (List.mem_cons_of_mem n hn')
    simp only [setSchedulers, schedulerFileName_eq, if_pos hn, Option.bind_eq_bind,
      Option.some_bind, hns, Option.pure_def, List.map_cons, List.filter_cons]
    split <;> rfl

/-- `set_schedulers` stays inside `scheduler_file_name` for every configuration whose device
names fit their `char[MAX_DEVICE_NAME_SIZE]` exactly when `MAX_DEVICE_NAME_SIZE ≤ 101`, and
then it writes the mode to `/sys/block/<tag>/queue/scheduler` for exactly the devices whose
`fopen` succeeds, in order: a failed `fopen` skips its device and nothing else. Each `<tag>`
is the last component of its device's path. -/
theorem setSchedulers_writes (MAX_DEVICE_NAME_SIZE : Nat) (mode : List Char)
    (fopenOk : List Char → Bool) :
    ((∀ deviceNames : List (List Char), (∀ n ∈ deviceNames, n.length < MAX_DEVICE_NAME_SIZE) →
        setSchedulers mode fopenOk deviceNames =
          some (((deviceNames.map fun n => sysBlock ++ deviceTag n ++ queueScheduler).filter
            fopenOk).map fun fileName => (fileName, mode))) ↔ MAX_DEVICE_NAME_SIZE ≤ 101) ∧
      ∀ n, '/' ∉ deviceTag n ∧ ∃ pre, n = pre ++ deviceTag n ∧
        (pre = [] ∨ pre.getLast? = some '/') := by
  refine ⟨⟨fun h => ?_, fun hmax deviceNames hnames =>
    setSchedulers_eq mode fopenOk deviceNames fun n hn => ?_⟩, deviceTag_last⟩
  · -- a name of 101 characters without a `/` overflows the path
    by_contra hmax
    have hlong : deviceTag (List.replicate 101 'a') = List.replicate 101 'a' := by
      rw [deviceTag, afterLastSlash_eq_none.2 (by simp [List.mem_replicate])]
      rfl
    have := h [List.replicate 101 'a'] (by simp; omega)
    rw [setSchedulers, schedulerFileName_eq, hlong, List.length_replicate, if_neg (by decide)]
      at this
    cases this
  · have := deviceTag_length_le n
    have := hnames n hn
    omega

/-- With `MAX_DEVICE_NAME_SIZE = 64`, the devices `/dev/sdb` and `/dev/nvme0n1`, and `fopen`
failing on the second, `set_schedulers` writes `noop` to the first device's file only. -/
theorem setSchedulers_writes_sdb :
    setSchedulers "noop".toList (fun f => f == "/sys/block/sdb/queue/scheduler".toList)
        ["/dev/sdb".toList, "/dev/nvme0n1".toList] =
      some [("/sys/block/sdb/queue/scheduler".toList, "noop".toList)] ∧
    ((∀ deviceNames : List (List Char), (∀ n ∈ deviceNames, n.length < 64) →
        setSchedulers "noop".toList (fun f => f == "/sys/block/sdb/queue/scheduler".toList)
            deviceNames =
          some (((deviceNames.map fun n => sysBlock ++ deviceTag n ++ queueScheduler).filter
            fun f => f == "/sys/block/sdb/queue/scheduler".toList).map
              fun fileName => (fileName, "noop".toList))) ↔ 64 ≤ 101) ∧
      ∀ n, '/' ∉ deviceTag n ∧ ∃ pre, n = pre ++ deviceTag n ∧
        (pre = [] ∨ pre.getLast? = some '/') :=
  ⟨by decide, setSchedulers_writes 64 _ _⟩

/-! ## `histogram_tag` -/

/-- `histogram_tag` holds every name the configuration can hold exactly when
`MAX_DEVICE_NAME_SIZE` is at least 19; it is then the name padded to `max 18 n` columns. -/
theorem histogramTag_fits (MAX_DEVICE_NAME_SIZE : Nat) (hpos : 0 < MAX_DEVICE_NAME_SIZE) :
    ((∀ name : List Char, name.length < MAX_DEVICE_NAME_SIZE →
        (histogramTag MAX_DEVICE_NAME_SIZE name).isSome) ↔ 19 ≤ MAX_DEVICE_NAME_SIZE) ∧
      ∀ name tag, histogramTag MAX_DEVICE_NAME_SIZE name = some tag →
        name <+: tag ∧ tag.length = max 18 name.length := by
  refine ⟨⟨fun h => ?_, fun h name hn => ?_⟩, fun name tag h => ?_⟩
  · -- the empty name needs 18 spaces and the `'\0'`
    have := h [] hpos
    simp only [histogramTag, strcpyInto, List.nil_append, List.length_replicate,
      List.length_nil] at this
    split at this
    · omega
    · cases this
  · simp only [histogramTag, strcpyInto, List.length_append, List.length_replicate]
    rw [if_pos (by omega)]
    rfl
  · simp only [histogramTag, strcpyInto] at h
    split at h <;> cases h
    exact ⟨List.prefix_append _ _, by simp only [List.length_append, List.length_replicate]; omega⟩

/-- With `MAX_DEVICE_NAME_SIZE = 64`, `/dev/sdb` is padded to 18 columns. -/
theorem histogramTag_fits_sdb :
    histogramTag 64 "/dev/sdb".toList = some ("/dev/sdb".toList ++ List.replicate 10 ' ') ∧
      0 < 64 ∧
      ((∀ name : List Char, name.length < 64 → (histogramTag 64 name).isSome) ↔ 19 ≤ 64) ∧
      ∀ name tag, histogramTag 64 name = some tag →
        name <+: tag ∧ tag.length = max 18 name.length :=
  ⟨by decide, by decide, histogramTag_fits 64 (by decide)⟩

end Act

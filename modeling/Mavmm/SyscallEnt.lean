/-!
# System calls of the guest (syscall_ent.h)

The number of arguments and the name of each system call, by its number.  The
flags of the entries are read by no handler.
-/

namespace Mavmm

structure SyscallEntry where
  sysNargs : Nat
  sysName : String

def syscalls : Array SyscallEntry := #[
  ⟨0, "restart_syscall"⟩, ⟨1, "exit"⟩, ⟨0, "fork"⟩, ⟨3, "read"⟩, ⟨3, "write"⟩, ⟨3, "open"⟩,
  ⟨1, "close"⟩, ⟨3, "waitpid"⟩, ⟨2, "creat"⟩, ⟨2, "link"⟩, ⟨1, "unlink"⟩, ⟨3, "execve"⟩,
  ⟨1, "chdir"⟩, ⟨1, "time"⟩, ⟨3, "mknod"⟩, ⟨2, "chmod"⟩, ⟨3, "lchown"⟩, ⟨0, "break"⟩,
  ⟨2, "oldstat"⟩, ⟨3, "lseek"⟩, ⟨0, "getpid"⟩, ⟨5, "mount"⟩, ⟨1, "umount"⟩, ⟨1, "setuid"⟩,
  ⟨0, "getuid"⟩, ⟨1, "stime"⟩, ⟨4, "ptrace"⟩, ⟨1, "alarm"⟩, ⟨2, "oldfstat"⟩, ⟨0, "pause"⟩,
  ⟨2, "utime"⟩, ⟨2, "stty"⟩, ⟨2, "gtty"⟩, ⟨2, "access"⟩, ⟨1, "nice"⟩, ⟨1, "ftime"⟩, ⟨0, "sync"⟩,
  ⟨2, "kill"⟩, ⟨2, "rename"⟩, ⟨2, "mkdir"⟩, ⟨1, "rmdir"⟩, ⟨1, "dup"⟩, ⟨1, "pipe"⟩, ⟨1, "times"⟩,
  ⟨0, "prof"⟩, ⟨1, "brk"⟩, ⟨1, "setgid"⟩, ⟨0, "getgid"⟩, ⟨2, "signal"⟩, ⟨0, "geteuid"⟩,
  ⟨0, "getegid"⟩, ⟨1, "acct"⟩, ⟨2, "umount2"⟩, ⟨0, "lock"⟩, ⟨3, "ioctl"⟩, ⟨3, "fcntl"⟩, ⟨0, "mpx"⟩,
  ⟨2, "setpgid"⟩, ⟨2, "ulimit"⟩, ⟨1, "oldolduname"⟩, ⟨1, "umask"⟩, ⟨1, "chroot"⟩, ⟨2, "ustat"⟩,
  ⟨2, "dup2"⟩, ⟨0, "getppid"⟩, ⟨0, "getpgrp"⟩, ⟨0, "setsid"⟩, ⟨3, "sigaction"⟩, ⟨0, "siggetmask"⟩,
  ⟨1, "sigsetmask"⟩, ⟨2, "setreuid"⟩, ⟨2, "setregid"⟩, ⟨1, "sigsuspend"⟩, ⟨1, "sigpending"⟩,
  ⟨2, "sethostname"⟩, ⟨2, "setrlimit"⟩, ⟨2, "getrlimit"⟩, ⟨2, "getrusage"⟩, ⟨2, "gettimeofday"⟩,
  ⟨2, "settimeofday"⟩, ⟨2, "getgroups"⟩, ⟨2, "setgroups"⟩, ⟨5, "select"⟩, ⟨2, "symlink"⟩,
  ⟨2, "oldlstat"⟩, ⟨3, "readlink"⟩, ⟨1, "uselib"⟩, ⟨2, "swapon"⟩, ⟨3, "reboot"⟩, ⟨3, "readdir"⟩,
  ⟨6, "mmap"⟩, ⟨2, "munmap"⟩, ⟨2, "truncate"⟩, ⟨2, "ftruncate"⟩, ⟨2, "fchmod"⟩, ⟨3, "fchown"⟩,
  ⟨2, "getpriority"⟩, ⟨3, "setpriority"⟩, ⟨4, "profil"⟩, ⟨2, "statfs"⟩, ⟨2, "fstatfs"⟩,
  ⟨3, "ioperm"⟩, ⟨2, "socketcall"⟩, ⟨3, "syslog"⟩, ⟨3, "setitimer"⟩, ⟨2, "getitimer"⟩, ⟨2, "stat"⟩,
  ⟨2, "lstat"⟩, ⟨2, "fstat"⟩, ⟨1, "olduname"⟩, ⟨1, "iopl"⟩, ⟨0, "vhangup"⟩, ⟨0, "idle"⟩,
  ⟨1, "vm86old"⟩, ⟨4, "wait4"⟩, ⟨1, "swapoff"⟩, ⟨1, "sysinfo"⟩, ⟨6, "ipc"⟩, ⟨1, "fsync"⟩,
  ⟨1, "sigreturn"⟩, ⟨5, "clone"⟩, ⟨2, "setdomainname"⟩, ⟨1, "uname"⟩, ⟨3, "modify_ldt"⟩,
  ⟨1, "adjtimex"⟩, ⟨3, "mprotect"⟩, ⟨3, "sigprocmask"⟩, ⟨2, "create_module"⟩, ⟨3, "init_module"⟩,
  ⟨2, "delete_module"⟩, ⟨1, "get_kernel_syms"⟩, ⟨4, "quotactl"⟩, ⟨1, "getpgid"⟩, ⟨1, "fchdir"⟩,
  ⟨2, "bdflush"⟩, ⟨3, "sysfs"⟩, ⟨1, "personality"⟩, ⟨5, "afs_syscall"⟩, ⟨1, "setfsuid"⟩,
  ⟨1, "setfsgid"⟩, ⟨5, "_llseek"⟩, ⟨3, "getdents"⟩, ⟨5, "_newselect"⟩, ⟨2, "flock"⟩, ⟨3, "msync"⟩,
  ⟨3, "readv"⟩, ⟨3, "writev"⟩, ⟨1, "getsid"⟩, ⟨1, "fdatasync"⟩, ⟨1, "_sysctl"⟩, ⟨2, "mlock"⟩,
  ⟨2, "munlock"⟩, ⟨1, "mlockall"⟩, ⟨0, "munlockall"⟩, ⟨2, "sched_setparam"⟩, ⟨2, "sched_getparam"⟩,
  ⟨3, "sched_setscheduler"⟩, ⟨1, "sched_getscheduler"⟩, ⟨0, "sched_yield"⟩,
  ⟨1, "sched_get_priority_max"⟩, ⟨1, "sched_get_priority_min"⟩, ⟨2, "sched_rr_get_interval"⟩,
  ⟨2, "nanosleep"⟩, ⟨4, "mremap"⟩, ⟨3, "setresuid"⟩, ⟨3, "getresuid"⟩, ⟨2, "vm86"⟩,
  ⟨5, "query_module"⟩, ⟨3, "poll"⟩, ⟨3, "nfsservctl"⟩, ⟨3, "setresgid"⟩, ⟨3, "getresgid"⟩,
  ⟨5, "prctl"⟩, ⟨1, "rt_sigreturn"⟩, ⟨4, "rt_sigaction"⟩, ⟨4, "rt_sigprocmask"⟩,
  ⟨2, "rt_sigpending"⟩, ⟨4, "rt_sigtimedwait"⟩, ⟨3, "rt_sigqueueinfo"⟩, ⟨2, "rt_sigsuspend"⟩,
  ⟨4, "pread64"⟩, ⟨4, "pwrite64"⟩, ⟨3, "chown"⟩, ⟨2, "getcwd"⟩, ⟨2, "capget"⟩, ⟨2, "capset"⟩,
  ⟨2, "sigaltstack"⟩, ⟨4, "sendfile"⟩, ⟨5, "getpmsg"⟩, ⟨5, "putpmsg"⟩, ⟨0, "vfork"⟩,
  ⟨2, "getrlimit"⟩, ⟨6, "mmap2"⟩, ⟨2, "truncate64"⟩, ⟨2, "ftruncate64"⟩, ⟨2, "stat64"⟩,
  ⟨2, "lstat64"⟩, ⟨2, "fstat64"⟩, ⟨3, "lchown32"⟩, ⟨0, "getuid32"⟩, ⟨0, "getgid32"⟩,
  ⟨0, "geteuid32"⟩, ⟨0, "getegid32"⟩, ⟨2, "setreuid32"⟩, ⟨2, "setregid32"⟩, ⟨2, "getgroups32"⟩,
  ⟨2, "setgroups32"⟩, ⟨3, "fchown32"⟩, ⟨3, "setresuid32"⟩, ⟨3, "getresuid32"⟩, ⟨3, "setresgid32"⟩,
  ⟨3, "getresgid32"⟩, ⟨3, "chown32"⟩, ⟨1, "setuid32"⟩, ⟨1, "setgid32"⟩, ⟨1, "setfsuid32"⟩,
  ⟨1, "setfsgid32"⟩, ⟨2, "pivot_root"⟩, ⟨3, "mincore"⟩, ⟨3, "madvise"⟩, ⟨3, "getdents64"⟩,
  ⟨3, "fcntl64"⟩, ⟨4, "SYS_222"⟩, ⟨4, "SYS_223"⟩, ⟨0, "gettid"⟩, ⟨3, "readahead"⟩, ⟨5, "setxattr"⟩,
  ⟨5, "lsetxattr"⟩, ⟨5, "fsetxattr"⟩, ⟨4, "getxattr"⟩, ⟨4, "lgetxattr"⟩, ⟨4, "fgetxattr"⟩,
  ⟨3, "listxattr"⟩, ⟨3, "llistxattr"⟩, ⟨3, "flistxattr"⟩, ⟨2, "removexattr"⟩, ⟨2, "lremovexattr"⟩,
  ⟨2, "fremovexattr"⟩, ⟨2, "tkill"⟩, ⟨4, "sendfile64"⟩, ⟨6, "futex"⟩, ⟨3, "sched_setaffinity"⟩,
  ⟨3, "sched_getaffinity"⟩, ⟨1, "set_thread_area"⟩, ⟨1, "get_thread_area"⟩, ⟨2, "io_setup"⟩,
  ⟨1, "io_destroy"⟩, ⟨5, "io_getevents"⟩, ⟨3, "io_submit"⟩, ⟨3, "io_cancel"⟩, ⟨4, "fadvise64"⟩,
  ⟨5, "SYS_251"⟩, ⟨1, "exit_group"⟩, ⟨3, "lookup_dcookie"⟩, ⟨1, "epoll_create"⟩, ⟨4, "epoll_ctl"⟩,
  ⟨4, "epoll_wait"⟩, ⟨5, "remap_file_pages"⟩, ⟨1, "set_tid_address"⟩, ⟨3, "timer_create"⟩,
  ⟨4, "timer_settime"⟩, ⟨2, "timer_gettime"⟩, ⟨1, "timer_getoverrun"⟩, ⟨1, "timer_delete"⟩,
  ⟨2, "clock_settime"⟩, ⟨2, "clock_gettime"⟩, ⟨2, "clock_getres"⟩, ⟨4, "clock_nanosleep"⟩,
  ⟨3, "statfs64"⟩, ⟨3, "fstatfs64"⟩, ⟨3, "tgkill"⟩, ⟨2, "utimes"⟩, ⟨4, "fadvise64_64"⟩,
  ⟨5, "vserver"⟩, ⟨6, "mbind"⟩, ⟨5, "get_mempolicy"⟩, ⟨3, "set_mempolicy"⟩, ⟨4, "mq_open"⟩,
  ⟨1, "mq_unlink"⟩, ⟨5, "mq_timedsend"⟩, ⟨5, "mq_timedreceive"⟩, ⟨2, "mq_notify"⟩,
  ⟨3, "mq_getsetattr"⟩, ⟨5, "kexec_load"⟩, ⟨4, "waitid"⟩, ⟨5, "SYS_285"⟩, ⟨5, "add_key"⟩,
  ⟨4, "request_key"⟩, ⟨5, "keyctl"⟩, ⟨3, "ioprio_set"⟩, ⟨2, "ioprio_get"⟩, ⟨0, "inotify_init"⟩,
  ⟨3, "inotify_add_watch"⟩, ⟨2, "inotify_rm_watch"⟩, ⟨4, "migrate_pages"⟩, ⟨4, "openat"⟩,
  ⟨3, "mkdirat"⟩, ⟨4, "mknodat"⟩, ⟨5, "fchownat"⟩, ⟨3, "futimesat"⟩, ⟨4, "fstatat64"⟩,
  ⟨3, "unlinkat"⟩, ⟨4, "renameat"⟩, ⟨5, "linkat"⟩, ⟨3, "symlinkat"⟩, ⟨4, "readlinkat"⟩,
  ⟨4, "fchmodat"⟩, ⟨4, "faccessat"⟩, ⟨6, "pselect6"⟩, ⟨4, "ppoll"⟩, ⟨1, "unshare"⟩,
  ⟨2, "set_robust_list"⟩, ⟨3, "get_robust_list"⟩, ⟨6, "splice"⟩, ⟨4, "sync_file_range"⟩,
  ⟨4, "tee"⟩, ⟨4, "vmsplice"⟩, ⟨6, "move_pages"⟩, ⟨3, "getcpu"⟩, ⟨5, "epoll_pwait"⟩,
  ⟨4, "utimensat"⟩, ⟨3, "signalfd"⟩, ⟨2, "timerfd_create"⟩, ⟨2, "eventfd"⟩, ⟨4, "fallocate"⟩,
  ⟨4, "timerfd_settime"⟩, ⟨2, "timerfd_gettime"⟩, ⟨0, "signalfd4"⟩, ⟨0, "eventfd2"⟩,
  ⟨0, "epoll_create1"⟩, ⟨0, "dup3"⟩, ⟨0, "pipe2"⟩, ⟨0, "inotify_init1"⟩]

end Mavmm

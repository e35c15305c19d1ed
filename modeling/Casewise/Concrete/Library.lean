import Casewise.Concrete.Value

namespace Casewise.Concrete

structure LibraryModule where
  path : String
  name : String
  builtins : List String := []
  functions : List String := []
  classes : List String := []
  values : Bindings Value := []
  hidden : List String := []

namespace Library

def decimal (x : Float) : Value := .scalar (.number (.float x))

def json : LibraryModule where
  path := "json"
  name := "json"
  functions := ["detect_encoding", "dump", "dumps", "load", "loads"]
  classes := ["JSONDecodeError", "JSONDecoder", "JSONEncoder"]
  values := ["codecs", "decoder", "encoder", "scanner"].map fun n => (n, .other "module" none)
  hidden := ["codecs", "decoder", "detect_encoding", "encoder", "scanner"]

def nanMark : Mark := ⟨0, 1⟩

def math : LibraryModule where
  path := "math"
  name := "math"
  builtins := [
    "acos", "acosh", "asin", "asinh", "atan", "atan2", "atanh", "cbrt", "ceil", "comb", "copysign", "cos", "cosh",
    "degrees", "dist", "erf", "erfc", "exp", "exp2", "expm1", "fabs", "factorial", "floor", "fmod", "frexp", "fsum",
    "gamma", "gcd", "hypot", "isclose", "isfinite", "isinf", "isnan", "isqrt", "lcm", "ldexp", "lgamma", "log",
    "log10", "log1p", "log2", "modf", "nextafter", "perm", "pow", "prod", "radians", "remainder", "sin", "sinh",
    "sqrt", "tan", "tanh", "trunc", "ulp"]
  values := [
    ("e", decimal 2.718281828459045), ("inf", decimal (1.0 / 0.0)), ("nan", .scalar (.number (.nan (some nanMark)))),
    ("pi", decimal 3.141592653589793), ("tau", decimal 6.283185307179586)]

def sys : LibraryModule where
  path := "sys"
  name := "sys"
  builtins := [
    "addaudithook", "audit", "breakpointhook", "call_tracing", "displayhook", "exc_info", "excepthook", "exception",
    "exit", "get_asyncgen_hooks", "get_coroutine_origin_tracking_depth", "get_int_max_str_digits",
    "getallocatedblocks", "getdefaultencoding", "getdlopenflags", "getfilesystemencodeerrors",
    "getfilesystemencoding", "getprofile", "getrecursionlimit", "getrefcount", "getsizeof", "getswitchinterval",
    "gettrace", "intern", "is_finalizing", "set_asyncgen_hooks", "set_coroutine_origin_tracking_depth",
    "set_int_max_str_digits", "setdlopenflags", "setprofile", "setrecursionlimit", "setswitchinterval", "settrace",
    "unraisablehook"]
  values := [
    ("abiflags", .text ""), ("api_version", .int 1013), ("byteorder", .text "little"),
    ("dont_write_bytecode", .scalar (.boolean false)),
    ("float_info", .tuple [
      decimal 1.7976931348623157e308, .int 1024, .int 308, decimal 2.2250738585072014e-308, .int (-1021), .int (-307),
      .int 15, .int 53, decimal 2.220446049250313e-16, .int 2, .int 1]),
    ("float_repr_style", .text "short"),
    ("hash_info", .tuple [
      .int 64, .int 2305843009213693951, .int 314159, .int 0, .int 1000003, .text "siphash13", .int 64, .int 128,
      .int 0]),
    ("int_info", .tuple [.int 30, .int 4, .int 4300, .int 640]), ("maxsize", .int 9223372036854775807),
    ("maxunicode", .int 1114111), ("platform", .text "linux"), ("platlibdir", .text "lib"), ("pycache_prefix", .null),
    ("warnoptions", .list [])] ++
    ["argv", "base_exec_prefix", "base_prefix", "builtin_module_names", "exec_prefix", "executable", "flags",
      "hexversion", "implementation", "meta_path", "modules", "orig_argv", "path", "path_hooks", "path_importer_cache",
      "prefix", "stderr", "stdin", "stdlib_module_names", "stdout", "thread_info", "version", "version_info"].map
      fun n => (n, .other "object" none)

def marks : Bindings Value :=
  [("altsep", .null), ("curdir", .text "."), ("defpath", .text "/bin:/usr/bin"), ("devnull", .text "/dev/null"),
    ("extsep", .text "."), ("pardir", .text ".."), ("pathsep", .text ":"), ("sep", .text "/")]

def osNumbers : List (String × Int) := [
    ("CLD_CONTINUED", 6), ("CLD_DUMPED", 3), ("CLD_EXITED", 1), ("CLD_KILLED", 2), ("CLD_STOPPED", 5),
    ("CLD_TRAPPED", 4), ("EFD_CLOEXEC", 524288), ("EFD_NONBLOCK", 2048), ("EFD_SEMAPHORE", 1), ("EX_CANTCREAT", 73),
    ("EX_CONFIG", 78), ("EX_DATAERR", 65), ("EX_IOERR", 74), ("EX_NOHOST", 68), ("EX_NOINPUT", 66),
    ("EX_NOPERM", 77), ("EX_NOUSER", 67), ("EX_OK", 0), ("EX_OSERR", 71), ("EX_OSFILE", 72), ("EX_PROTOCOL", 76),
    ("EX_SOFTWARE", 70), ("EX_TEMPFAIL", 75), ("EX_UNAVAILABLE", 69), ("EX_USAGE", 64), ("F_LOCK", 1), ("F_OK", 0),
    ("F_TEST", 3), ("F_TLOCK", 2), ("F_ULOCK", 0), ("NGROUPS_MAX", 65536), ("O_ACCMODE", 3), ("O_APPEND", 1024),
    ("O_ASYNC", 8192), ("O_CLOEXEC", 524288), ("O_CREAT", 64), ("O_DIRECT", 16384), ("O_DIRECTORY", 65536),
    ("O_DSYNC", 4096), ("O_EXCL", 128), ("O_FSYNC", 1052672), ("O_LARGEFILE", 0), ("O_NDELAY", 2048),
    ("O_NOATIME", 262144), ("O_NOCTTY", 256), ("O_NOFOLLOW", 131072), ("O_NONBLOCK", 2048), ("O_PATH", 2097152),
    ("O_RDONLY", 0), ("O_RDWR", 2), ("O_RSYNC", 1052672), ("O_SYNC", 1052672), ("O_TMPFILE", 4259840),
    ("O_TRUNC", 512), ("O_WRONLY", 1), ("POSIX_FADV_DONTNEED", 4), ("POSIX_FADV_NOREUSE", 5),
    ("POSIX_FADV_NORMAL", 0), ("POSIX_FADV_RANDOM", 1), ("POSIX_FADV_SEQUENTIAL", 2), ("POSIX_FADV_WILLNEED", 3),
    ("POSIX_SPAWN_CLOSE", 1), ("POSIX_SPAWN_DUP2", 2), ("POSIX_SPAWN_OPEN", 0), ("PRIO_PGRP", 1),
    ("PRIO_PROCESS", 0), ("PRIO_USER", 2), ("P_ALL", 0), ("P_NOWAIT", 1), ("P_NOWAITO", 1), ("P_PGID", 2),
    ("P_PID", 1), ("P_WAIT", 0), ("RTLD_DEEPBIND", 8), ("RTLD_GLOBAL", 256), ("RTLD_LAZY", 1), ("RTLD_LOCAL", 0),
    ("RTLD_NODELETE", 4096), ("RTLD_NOLOAD", 4), ("RTLD_NOW", 2), ("R_OK", 4), ("SCHED_BATCH", 3), ("SCHED_FIFO", 1),
    ("SCHED_IDLE", 5), ("SCHED_OTHER", 0), ("SCHED_RESET_ON_FORK", 1073741824), ("SCHED_RR", 2), ("SEEK_CUR", 1),
    ("SEEK_DATA", 3), ("SEEK_END", 2), ("SEEK_HOLE", 4), ("SEEK_SET", 0), ("SPLICE_F_MORE", 4), ("SPLICE_F_MOVE", 1),
    ("SPLICE_F_NONBLOCK", 2), ("ST_APPEND", 256), ("ST_MANDLOCK", 64), ("ST_NOATIME", 1024), ("ST_NODEV", 4),
    ("ST_NODIRATIME", 2048), ("ST_NOEXEC", 8), ("ST_NOSUID", 2), ("ST_RDONLY", 1), ("ST_RELATIME", 4096),
    ("ST_SYNCHRONOUS", 16), ("ST_WRITE", 128), ("TMP_MAX", 238328), ("WCONTINUED", 8), ("WEXITED", 4),
    ("WNOHANG", 1), ("WNOWAIT", 16777216), ("WSTOPPED", 2), ("WUNTRACED", 2), ("W_OK", 2), ("XATTR_CREATE", 1),
    ("XATTR_REPLACE", 2), ("XATTR_SIZE_MAX", 65536), ("X_OK", 1), ("GRND_NONBLOCK", 1), ("GRND_RANDOM", 2)]

def os : LibraryModule where
  path := "os"
  name := "os"
  builtins := [
    "WCOREDUMP", "WEXITSTATUS", "WIFCONTINUED", "WIFEXITED", "WIFSIGNALED", "WIFSTOPPED", "WSTOPSIG", "WTERMSIG",
    "abort", "access", "chdir", "chmod", "chown", "chroot", "close", "closerange", "confstr", "copy_file_range",
    "cpu_count", "ctermid", "device_encoding", "dup", "dup2", "eventfd", "eventfd_read", "eventfd_write", "execv",
    "execve", "fchdir", "fchmod", "fchown", "fdatasync", "fork", "forkpty", "fpathconf", "fspath", "fstat",
    "fstatvfs", "fsync", "ftruncate", "get_blocking", "get_inheritable", "get_terminal_size", "getcwd", "getcwdb",
    "getegid", "geteuid", "getgid", "getgrouplist", "getgroups", "getloadavg", "getlogin", "getpgid", "getpgrp",
    "getpid", "getppid", "getpriority", "getrandom", "getresgid", "getresuid", "getsid", "getuid", "getxattr",
    "initgroups", "isatty", "kill", "killpg", "lchown", "link", "listdir", "listxattr", "lockf", "login_tty",
    "lseek", "lstat", "major", "makedev", "memfd_create", "minor", "mkdir", "mkfifo", "mknod", "nice", "open",
    "openpty", "pathconf", "pidfd_open", "pipe", "pipe2", "posix_fadvise", "posix_fallocate", "posix_spawn",
    "posix_spawnp", "pread", "preadv", "putenv", "pwrite", "pwritev", "read", "readlink", "readv",
    "register_at_fork", "remove", "removexattr", "rename", "replace", "rmdir", "scandir", "sched_get_priority_max",
    "sched_get_priority_min", "sched_getaffinity", "sched_getparam", "sched_getscheduler", "sched_rr_get_interval",
    "sched_setaffinity", "sched_setparam", "sched_setscheduler", "sched_yield", "sendfile", "set_blocking",
    "set_inheritable", "setegid", "seteuid", "setgid", "setgroups", "setpgid", "setpgrp", "setpriority", "setregid",
    "setresgid", "setresuid", "setreuid", "setsid", "setuid", "setxattr", "splice", "stat", "statvfs", "strerror",
    "symlink", "sync", "sysconf", "system", "tcgetpgrp", "tcsetpgrp", "times", "truncate", "ttyname", "umask",
    "uname", "unlink", "unsetenv", "urandom", "utime", "wait", "wait3", "wait4", "waitid", "waitpid",
    "waitstatus_to_exitcode", "write", "writev"]
  functions := [
    "execl", "execle", "execlp", "execlpe", "execvp", "execvpe", "fdopen", "fsdecode", "fsencode", "fwalk",
    "get_exec_path", "getenv", "getenvb", "makedirs", "popen", "removedirs", "renames", "spawnl", "spawnle",
    "spawnlp", "spawnlpe", "spawnv", "spawnve", "spawnvp", "spawnvpe", "walk"]
  classes := [
    "DirEntry", "GenericAlias", "Mapping", "MutableMapping", "PathLike", "sched_param", "stat_result",
    "statvfs_result", "terminal_size", "times_result", "uname_result", "waitid_result"]
  values := marks ++ [("error", .builtin .cls "OSError"), ("linesep", .text "\n"), ("name", .text "posix"),
      ("supports_bytes_environ", .scalar (.boolean true))] ++
    osNumbers.map (fun (n, v) => (n, .int v)) ++
    ["supports_dir_fd", "supports_effective_ids", "supports_fd", "supports_follow_symlinks"].map
      (fun n => (n, .set [.builtin .function "access"])) ++
    ["confstr_names", "environ", "environb", "pathconf_names", "sysconf_names"].map
      (fun n => (n, .other "object" none)) ++
    ["abc", "st", "sys"].map fun n => (n, .other "module" none)
  hidden := [
    "GenericAlias", "Mapping", "MutableMapping", "PathLike", "abc", "st", "supports_dir_fd", "supports_effective_ids",
    "supports_fd", "supports_follow_symlinks", "sys"]

def paths : LibraryModule where
  path := "os.path"
  name := "posixpath"
  functions := [
    "abspath", "basename", "commonpath", "commonprefix", "dirname", "exists", "expanduser", "expandvars",
    "getatime", "getctime", "getmtime", "getsize", "isabs", "isdir", "isfile", "islink", "ismount", "join",
    "lexists", "normcase", "normpath", "realpath", "relpath", "samefile", "sameopenfile", "samestat", "split",
    "splitdrive", "splitext"]
  values := marks ++ [("supports_unicode_filenames", .scalar (.boolean false))] ++
    ["genericpath", "os", "stat", "sys"].map fun n => (n, .other "module" none)
  hidden := ["genericpath", "os", "stat", "sys"]

def modules : List LibraryModule := [json, os, math, sys, paths]

end Library

def isPackage (path : String) : Bool := path == "json"

def isLibrary (path : String) : Bool := Library.modules.any (·.path == path)

def Store.addNatives (s : Store) (isClass : Bool) (names : List String) : Store × Bindings Value :=
  names.foldl (fun (s, found) name =>
    let (s, id) := s.add ⟨.native name isClass, []⟩
    (s, found ++ [(name, .object id)])) (s, [])

def Store.addLibrary (s : Store) (m : LibraryModule) : Store :=
  let (s, functions) := s.addNatives false m.functions
  let (s, classes) := s.addNatives true m.classes
  let members := m.builtins.map (fun n => (n, Value.builtin .function n)) ++ functions ++ classes ++ m.values
  let (s, id) := s.add ⟨.module m.name, members⟩
  { s with modules := s.modules.set m.path id }

def libraryStore : Store :=
  let s := Library.modules.foldl Store.addLibrary {}
  match s.modules.get? "os", s.modules.get? "os.path" with
  | some os, some paths => s.setMember os "path" (.object paths)
  | _, _ => s

end Casewise.Concrete

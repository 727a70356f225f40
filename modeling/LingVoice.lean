import LingVoice.LmSrtp.Replay
import LingVoice.LmSrtp.SrtcpExchange
import LingVoice.LmProtocol.TsRoundTrip
import LingVoice.LmDepacketizer.Loss
import LingVoice.LmTransport.NackRun
import LingVoice.LmTransport.FecSoundness
import LingVoice.LmTransport.TwccRoundTrip
import LingVoice.LmProtocol.Gb28181
import LingVoice.LmProtocol.RtmpReadable
import LingVoice.Gb28181.PsCuts
import LingVoice.Rtmp.Amf0RoundTrip
import LingVoice.LmProtocol.RemuxerReset
import LingVoice.LmProtocol.LlHls
import LingVoice.LmProtocol.Cmaf
import LingVoice.LmProtocol.MqttQos
import LingVoice.LmProtocol.RtspRoundTrip
import LingVoice.LmCore.SpscFifo
import LingVoice.LmRecorder.Segment
import LingVoice.Cluster.Health
import LingVoice.LmStream.Delivery
import LingVoice.LmStream.SimulcastDelivery
import LingVoice.LmStream.Dynacast
import LingVoice.LmStream.StreamRegistry
import LingVoice.LmRecorder.OpusRoundTrip
import LingVoice.LmPlayback.Ogg
import LingVoice.LmRecorder.WebmRoundTrip
import LingVoice.LmRecorder.Mp4Readable
import LingVoice.Rtmp.PlayConfig
import LingVoice.Media.JitterRun
import LingVoice.Media.JitterLoss
import LingVoice.SaturatedMix
import LingVoice.SegmentPartition
import LingVoice.SegmentServing
import LingVoice.Dash.Mp4Init
import LingVoice.Rtsp.Transport
import LingVoice.Moq.Transport
import LingVoice.Moq.Server
import LingVoice.Common.Batch
import LingVoice.Common.CapacityScheduler
import LingVoice.Common.Multilevel
import LingVoice.Common.TokenbucketRace
import LingVoice.LmTransport.Retransmit
import LingVoice.LmRouter.ForwardTable
import LingVoice.Ws.Session
import LingVoice.LmProtocol.FlvSafety
import LingVoice.Srt.TsSafety
